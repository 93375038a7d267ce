import Minipg.Decode.Dispatch
import Minipg.Decode.Plans
import Minipg.Decode.ServerTexts
import Minipg.Encode.Arrays
import Minipg.Js.Nearby

/-!
# Milliseconds from text and from binary

`binTimestampMs` (`src/temporal.ts`) reads an int64 of microseconds as two words and makes
milliseconds of them in doubles.  Over the whole range of a `Date` every step is exact but the
division, whose quotient is rounded; its floor is exact again (`binTimestampMs_exact`).

With the target `ms` an instant is a number.  What a `Date` can hold is the same number from both
formats; of what lies further out, the infinities among it, the text is `NaN` and the binary form
some number that no `Date` can hold (`ms_decoders`).
-/

namespace Minipg.Cells

open Js Encode

/-! ### Timestamps in binary format -/

/-- An integer of magnitude at most `2 ^ 53`. -/
def IsExact (x : Double) : Prop := ∃ n : Int, |n| ≤ 2 ^ 53 ∧ x.integer? = some n

theorem isExact_ofInt {n : Int} (h : Double.Safe n) : IsExact (.ofInt n) := by
  obtain ⟨hlow, hhigh⟩ := h
  exact ⟨n, abs_le.mpr ⟨by omega, by omega⟩, Double.integer?_ofInt ⟨hlow, hhigh⟩⟩

/-- The quantities before and after the division. -/
def MicrosSteps.integers (s : MicrosSteps) : List Double :=
  [s.hi, s.lo, s.high, s.small, s.sum, s.floored, s.joined, s.result]

def MicrosSteps.all (s : MicrosSteps) : List Double := s.quotient :: s.integers

/-- `us` microseconds after the start of 2000 lie in the range of a `Date`. -/
def InDateRange (us : Int) : Prop :=
  -8640000000000000 ≤ us / 1000 + pgEpochMs ∧ us / 1000 + pgEpochMs ≤ 8640000000000000

instance (us : Int) : Decidable (InDateRange us) := inferInstanceAs (Decidable (_ ∧ _))

/-- The two words of a timestamp. -/
def stepsOf (us : Int) : MicrosSteps :=
  microsSteps (.ofInt (us / 4294967296)) (.ofInt (us % 4294967296))

theorem stepsOf_exact {us : Int} (h : InDateRange us) :
    (∀ x ∈ (stepsOf us).integers, IsExact x) ∧ ∃ n : Int, Double.Safe n ∧
      (stepsOf us).sum = .ofInt n ∧ (stepsOf us).quotient = .round (n < 0) (n / 1000) ∧
        (stepsOf us).floored = .ofInt (n / 1000) := by
  unfold InDateRange pgEpochMs at h
  have hsteps : stepsOf us = exactSteps (us / 4294967296) (us % 4294967296) :=
    microsSteps_eq (by omega) (by omega)
  rw [hsteps]
  have hh : -2095476000 ≤ us / 4294967296 ∧ us / 4294967296 ≤ 2095476000 := by omega
  have hl : 0 ≤ us % 4294967296 ∧ us % 4294967296 < 4294967296 := by omega
  have hjoined : us / 4294967296 * 4294967 +
      (us / 4294967296 * 296 + us % 4294967296) / 1000 = us / 1000 := by
    omega
  generalize us / 4294967296 = hi at *
  generalize us % 4294967296 = lo at *
  refine ⟨?_, hi * 296 + lo, ⟨by omega, by omega⟩, rfl, rfl, rfl⟩
  unfold MicrosSteps.integers exactSteps pgEpochMs
  simp only [List.forall_mem_cons, List.not_mem_nil, false_implies, implies_true, and_true]
  refine ⟨isExact_ofInt ⟨?_, ?_⟩, isExact_ofInt ⟨?_, ?_⟩, isExact_ofInt ⟨?_, ?_⟩,
    isExact_ofInt ⟨?_, ?_⟩, isExact_ofInt ⟨?_, ?_⟩, isExact_ofInt ⟨?_, ?_⟩,
    isExact_ofInt ⟨?_, ?_⟩, isExact_ofInt ⟨?_, ?_⟩⟩
  all_goals omega

/-- **The milliseconds of a timestamp are exact**, and so is every integer on the way. -/
theorem binTimestampMs_exact (rt : Runtime) {us : Int} (h : InDateRange us) (pre post : Bytes) :
    let b := pre ++ bigEndian 8 us ++ post
    let s := microsSteps (hi rt.standard b pre.length) (lo rt.standard b pre.length)
    binTimestampMs rt.standard b pre.length = .ofInt (us / 1000 + pgEpochMs) ∧
      binTimestampMs rt.standard b pre.length = s.result ∧
      (∀ x ∈ s.integers, IsExact x) ∧ ∃ n : Int, Double.Safe n ∧ s.sum = .ofInt n ∧
        s.quotient = .round (n < 0) (n / 1000) ∧ s.floored = .ofInt (n / 1000) := by
  intro b s
  have hrange : -9000000000000000000 ≤ us ∧ us ≤ 9000000000000000000 := by
    unfold InDateRange pgEpochMs at h
    omega
  obtain ⟨hhi, hlo⟩ := halves_read (v := us) ⟨by omega, by omega⟩ pre post
  have hs : s = stepsOf us := by
    show microsSteps (.ofInt (signed 32 (word b pre.length)))
      (.ofInt (word b (pre.length + 4))) = stepsOf us
    rw [hhi, hlo]
    rfl
  refine ⟨binTimestampMs_eq rt hhi hlo hrange, binTimestampMs_steps rt b pre.length, ?_⟩
  rw [hs]
  exact stepsOf_exact h

/-- One microsecond before the start of 2000. -/
theorem binTimestampMs_exact_before :
    InDateRange (-1) ∧ binTimestampMs Plans.hexOnly.env.rt.standard (bigEndian 8 (-1)) 0 =
      .ofInt 946684799999 :=
  ⟨by decide, (binTimestampMs_exact Plans.hexOnly.env.rt (show InDateRange (-1) by decide) [] []).1⟩

/-- A thousandth of one microsecond is no integer. -/
theorem quotient_inexact :
    ¬∀ us, InDateRange us → ∀ x ∈ (stepsOf us).all, IsExact x := by
  intro h
  obtain ⟨n, -, hn⟩ := h 1 (by decide) (stepsOf 1).quotient List.mem_cons_self
  have hnone : (stepsOf 1).quotient.integer? = none := by decide +kernel
  rw [hnone] at hn
  cases hn

/-! ### The target `ms` -/

def msCol (oid : Int) (format : WireFormat) : CodegenCol where
  oid := oid
  js := some "ms"
  format := format
  array_oid := by simp

/-! ### Out of range -/

/-- Near to a number so far out that no `Date` can hold either. -/
def Far (x : Double) (q : Int) : Prop := ∃ e : ℚ, Double.Near x q e ∧ 8640000000000001 + e ≤ |(q : ℚ)|

theorem far_ofInt {q : Int} (h : Double.Safe q) (hq : ¬Clipped q) : Far (.ofInt q) q := by
  refine ⟨0, Double.near_ofInt h, ?_⟩
  have hout : (8640000000000001 : Int) ≤ |q| := by
    unfold Clipped at hq
    rw [le_abs]
    omega
  rw [add_zero]
  exact_mod_cast hout

/-- Rounding does not bring back what lies past 9e15. -/
theorem far_of_near {x : Double} {q : Int} {e : ℚ} (h : Double.Near x q e) (he : e ≤ 384)
    (hq : 8900000000000000 ≤ |q|) : Far x q := by
  refine ⟨e, h, ?_⟩
  have hcast : (8900000000000000 : ℚ) ≤ |(q : ℚ)| := by exact_mod_cast hq
  linarith

theorem Far.isNaN {x : Double} {q : Int} (h : Far x q) : x.isNaN = false := by
  obtain ⟨e, hnear, -⟩ := h
  exact (Double.isNaN_of_finite hnear.finite).1

theorem Far.newDate {x : Double} {q : Int} (h : Far x q) : newDate x = .date none := by
  obtain ⟨e, hnear, hfar⟩ := h
  exact hnear.newDate hfar

theorem near_add_ofInt {x : Double} {p q : Int} {d : ℚ} (hx : Double.Near x p d)
    (hq : Double.Safe q) (hd : d ≤ 256) (h : |p + q| < 2 ^ 59) :
    Double.Near (.add x (.ofInt q)) (p + q : Int) (d + 128) := by
  have hcast : |((p + q : Int) : ℚ)| < 2 ^ 59 := by exact_mod_cast h
  have hadd := hx.add (Double.near_ofInt hq) (by
    rw [← Int.cast_add]
    norm_num at hcast ⊢
    linarith)
  rw [← Int.cast_add, add_zero] at hadd
  exact hadd

/-! ### Binary -/

/-- The milliseconds of every timestamp, exact where a `Date` can hold them. -/
theorem binTimestampMs_cases (rt : Runtime) {us : Int}
    (h : -9223372036854775808 ≤ us ∧ us ≤ 9223372036854775807) (pre post : Bytes) :
    let x := binTimestampMs rt.standard (pre ++ bigEndian 8 us ++ post) pre.length
    let q := us / 1000 + pgEpochMs
    if Clipped q then x = .ofInt q else Far x q := by
  intro x q
  obtain ⟨hhi, hlo⟩ := halves_read (v := us) ⟨by omega, by omega⟩ pre post
  by_cases hnear : -9000000000000000000 ≤ us ∧ us ≤ 9000000000000000000
  · have hx : x = .ofInt q := binTimestampMs_eq rt hhi hlo hnear
    rw [hx]
    by_cases hq : Clipped q
    · rw [if_pos hq]
    · rw [if_neg hq]
      refine far_ofInt ?_ hq
      unfold q pgEpochMs
      exact ⟨by omega, by omega⟩
  · have hq : ¬Clipped q := by
      unfold Clipped q pgEpochMs
      omega
    have hx : x = (microsSteps (.ofInt (us / 4294967296)) (.ofInt (us % 4294967296))).result := by
      show (microsSteps (.ofInt (signed 32 (word _ _))) (.ofInt (word _ _))).result = _
      rw [hhi, hlo]
    have hjoin : us / 4294967296 * 4294967 +
        (us / 4294967296 * 296 + us % 4294967296) / 1000 = us / 1000 := by
      omega
    rw [if_neg hq, hx]
    have hh : -2147483648 ≤ us / 4294967296 ∧ us / 4294967296 ≤ 2147483647 := by omega
    have hl : 0 ≤ us % 4294967296 ∧ us % 4294967296 < 4294967296 := by omega
    have h0 : us / 4294967296 ≠ 0 := by omega
    generalize us / 4294967296 = hi at hh h0 hjoin ⊢
    generalize us % 4294967296 = lo at hl hjoin ⊢
    have hhigh := Double.near_mul (a := hi) (b := 4294967) ⟨by omega, by omega⟩ (by decide)
      (by decide) (by
        have hlt : |hi * 4294967| < 2 ^ 60 := by
          rw [abs_lt]
          omega
        exact_mod_cast hlt)
    have hsmall := Double.mul_ofInt (a := hi) (b := 296) ⟨by omega, by omega⟩ (by decide)
      (.inl (by omega))
    have hadd := Double.add_ofInt (a := hi * 296) (b := lo) ⟨by omega, by omega⟩
      ⟨by omega, by omega⟩
    have hfloor := Double.floor_div (a := hi * 296 + lo) ⟨by omega, by omega⟩ (d := 1000)
      (by decide) (by decide)
    have hjoined := near_add_ofInt hhigh (q := (hi * 296 + lo) / 1000) ⟨by omega, by omega⟩
      (by norm_num) (by
        rw [abs_lt]
        omega)
    rw [hjoin] at hjoined
    have hresult := near_add_ofInt hjoined (q := pgEpochMs) (by decide) (by norm_num) (by
      unfold pgEpochMs
      rw [abs_lt]
      omega)
    have hsteps : (microsSteps (.ofInt hi) (.ofInt lo)).result =
        .add (.add (.mul (.ofInt hi) (.ofInt 4294967)) (.ofInt ((hi * 296 + lo) / 1000)))
          (.ofInt pgEpochMs) := by
      unfold microsSteps
      dsimp only
      rw [hsmall, hadd, hfloor]
    have hout : 8900000000000000 ≤ |us / 1000 + pgEpochMs| := by
      unfold pgEpochMs
      rw [le_abs]
      omega
    rw [hsteps]
    exact far_of_near hresult (by norm_num) hout

/-- The milliseconds of every date. -/
theorem dateMs_cases (rt : Runtime) {days : Int} (h : -2147483648 ≤ days ∧ days ≤ 2147483647)
    (pre post : Bytes) :
    let q := days * 86400000 + pgEpochMs
    ∃ x, dateMs rt.standard (pre ++ bigEndian 4 days ++ post) pre.length = .ok x ∧
      if Clipped q then x = .ofInt q else Far x q := by
  intro q
  have hsigned : signed 32 (days % 256 ^ 4).toNat = days :=
    @signed_emod 32 (by decide) days (by omega) (by omega)
  refine ⟨.add (.mul (.ofInt days) (.ofInt 86400000)) (.ofInt pgEpochMs), ?_, ?_⟩
  · unfold dateMs
    rw [readBE_bigEndian]
    show Except.ok (Double.add (.mul (.ofInt (signed 32 _)) _) _) = _
    rw [hsigned]
    rfl
  by_cases hnear : -104000000 ≤ days ∧ days ≤ 104000000
  · have hmul := Double.mul_ofInt (a := days) (b := 86400000) ⟨by omega, by omega⟩ (by decide)
      (by omega)
    have hadd := Double.add_ofInt (a := days * 86400000) (b := pgEpochMs) ⟨by omega, by omega⟩
      (by decide)
    rw [hmul, hadd]
    by_cases hq : Clipped q
    · rw [if_pos hq]
    · rw [if_neg hq]
      refine far_ofInt ?_ hq
      unfold pgEpochMs
      exact ⟨by omega, by omega⟩
  · have hq : ¬Clipped q := by
      unfold Clipped q pgEpochMs
      omega
    have hmul := Double.near_mul (a := days) (b := 86400000) ⟨by omega, by omega⟩ (by decide)
      (by decide) (by
        have hlt : |days * 86400000| < 2 ^ 60 := by
          rw [abs_lt]
          omega
        exact_mod_cast hlt)
    have hadd := near_add_ofInt hmul (q := pgEpochMs) (by decide) (by norm_num) (by
      unfold pgEpochMs
      rw [abs_lt]
      omega)
    have hout : 8900000000000000 ≤ |days * 86400000 + pgEpochMs| := by
      unfold pgEpochMs
      rw [le_abs]
      omega
    rw [if_neg hq]
    exact far_of_near hadd (by norm_num) hout

/-! ### Text -/

/-- The milliseconds of a text of a value. -/
theorem tsParse_cases (rt : Runtime) {lo hi : Int} {instant : Int → Int} {v : Int} {text : Bytes}
    (htext : InstantText lo hi instant v text) (hlo : ¬Clipped (instant lo / 1000))
    (hhi : ¬Clipped (instant hi / 1000)) (pre post : Bytes) :
    let x := tsParse rt.standard (pre ++ text ++ post) pre.length text.length
    if Clipped (instant v / 1000) then x = .ofInt (instant v / 1000) else x.isNaN = true := by
  intro x
  obtain ⟨hfinite, hinfinite⟩ := instantFromBytes_exact rt pre post
  have hinf : ∀ neg, text = infinityText neg → x.isNaN = true := by
    intro neg heq
    obtain ⟨ms, hms, hnan⟩ := hinfinite neg
    subst heq
    show (Option.getD (instantFromBytes rt.standard _ _ _) _).isNaN = true
    rw [hms]
    exact hnan
  cases htext with
  | infinity =>
    rw [if_neg hhi]
    exact hinf false rfl
  | minusInfinity =>
    rw [if_neg hlo]
    exact hinf true rfl
  | @finite v t h hlo hhi =>
    obtain ⟨ms, hms, hin, hout⟩ := hfinite t
    have hx : x = ms := by
      show Option.getD (instantFromBytes rt.standard _ _ _) _ = ms
      rw [hms]
      rfl
    rw [hx, ← h]
    by_cases hclip : Clipped (t.instant / 1000)
    · rw [if_pos hclip]
      exact hin hclip
    · rw [if_neg hclip]
      exact hout.mpr hclip

/-! ### Columns -/

section Columns

variable (env : Env)

/-- The runtime with the arithmetic of the language. -/
def standardEnv : Env := { env with rt := env.rt.standard }

/-- The two mappers. -/
def engines : List (Env → CodegenCol → DecoderMap → Except JsError Cell) := [compiled, pickDecoder]

variable {env} {map : DecoderMap} {oid : Int}

/-- Nothing comes before the built-in text decoders of a type of the server. -/
theorem text_picked (env : Env) (col : CodegenCol) {cell : Cell} (hoid : -2000 < col.oid)
    (ht : col.format ≠ .binary) (hc : map.custom col.oid = none) (ha : col.array = none)
    (hpick : pickText env.rt col.oid col.js = some cell) :
    ∀ engine ∈ engines, engine env col map = .ok cell := by
  have hcus : customAt env col = none := by
    unfold customAt
    cases hdef : env.registry.defs col.oid with
    | none => simp
    | some defn =>
      have hsentinel := env.registry.sentinel col.oid defn hdef
      omega
  have hext : extAt env col = none := by
    unfold extAt
    cases hleaf : extLeafFor env col.oid col.js with
    | none => rfl
    | some leaf =>
      obtain ⟨hinline, -⟩ := extLeafFor_name env col.oid col.js leaf hleaf
      rw [inlineSnippet_eq, hpick] at hinline
      cases hinline
  have hinterpreted : pickDecoder env col map = .ok cell := by
    unfold pickDecoder
    rw [if_neg ht, hc, ha, hcus, hext, hpick]
    rfl
  intro engine hengine
  rcases List.mem_pair.mp hengine with rfl | rfl
  · rw [builtin_eq env col map ht hc ha hcus]
    exact hinterpreted
  · exact hinterpreted

/-- Both mappers have the same decoders of binary columns. -/
theorem binary_picked (env : Env) (map : DecoderMap) (col : CodegenCol) {cell : Cell} (hb : col.format = .binary)
    (hpick : pickBinary env.rt col.oid col.js = .ok cell) :
    ∀ engine ∈ engines, engine env col map = .ok cell := by
  have hsnippet := pickBinary_eq env.rt col.oid col.js
  rw [hpick] at hsnippet
  intro engine hengine
  rcases List.mem_pair.mp hengine with rfl | rfl
  · unfold compiled
    rw [if_pos hb, ← hsnippet]
    rfl
  · unfold pickDecoder
    rw [if_pos hb]
    exact hpick

/-- What text and binary give for an instant: its milliseconds where a `Date` can hold it, and
otherwise `NaN` and a number that no `Date` can hold. -/
def MsOutcome (ms : Int) (text binary : Except JsError Value) : Prop :=
  if Clipped ms then text = .ok (.number (.ofInt ms)) ∧ binary = .ok (.number (.ofInt ms))
  else ∃ t n : Double, text = .ok (.number t) ∧ binary = .ok (.number n) ∧ t.isNaN = true ∧
    n.isNaN = false ∧ newDate t = .date none ∧ newDate n = .date none

theorem MsOutcome.of_cases {ms : Int} {t n : Double} {text binary : Except JsError Value}
    (htext : text = .ok (.number t)) (hbinary : binary = .ok (.number n))
    (ht : if Clipped ms then t = .ofInt ms else t.isNaN = true)
    (hn : if Clipped ms then n = .ofInt ms else Far n ms) : MsOutcome ms text binary := by
  unfold MsOutcome
  by_cases hclip : Clipped ms
  · rw [if_pos hclip] at ht hn ⊢
    rw [htext, hbinary, ht, hn]
    exact ⟨rfl, rfl⟩
  · rw [if_neg hclip] at ht hn ⊢
    exact ⟨t, n, htext, hbinary, ht, hn.isNaN, Double.newDate_nan ht, hn.newDate⟩

theorem msText_decoded (ho : oid ∈ instantOids) (hmap : map.custom oid = none) :
    ∀ engine ∈ engines, ∀ b o l, decode (engine (standardEnv env) (msCol oid .text) map) b o l =
      .ok (.number (tsParse env.rt.standard b o l)) := by
  intro engine hengine b o l
  have hpick : pickText env.rt.standard oid (some "ms") = some (tsEpoch env.rt.standard) := by
    unfold pickText
    simp [ho, absent]
  have hoid : -2000 < oid := by
    unfold instantOids at ho
    simp at ho
    omega
  have hdecoder := text_picked (standardEnv env) (msCol oid .text) hoid (fun h => by cases h) hmap rfl
    hpick engine hengine
  show (engine (standardEnv env) (msCol oid .text) map >>= fun d => d b o l) = _
  rw [hdecoder]
  rfl

theorem msTimestamp_decoded (ho : oid ∈ [1114, 1184]) :
    ∀ engine ∈ engines, ∀ b o l, decode (engine (standardEnv env) (msCol oid .binary) map) b o l =
      .ok (.number (binTimestampMs env.rt.standard b o)) := by
  intro engine hengine b o l
  have hpick : pickBinary env.rt.standard oid (some "ms") = .ok (binTsEpoch env.rt.standard) := by
    rcases List.mem_pair.mp ho with rfl | rfl
    · rfl
    · rfl
  have hdecoder := binary_picked (standardEnv env) map (msCol oid .binary) rfl hpick engine hengine
  show (engine (standardEnv env) (msCol oid .binary) map >>= fun d => d b o l) = _
  rw [hdecoder]
  rfl

theorem msDate_decoded {b : Bytes} {o : Nat} {x : Double}
    (hx : dateMs env.rt.standard b o = .ok x) :
    ∀ engine ∈ engines, ∀ l, decode (engine (standardEnv env) (msCol 1082 .binary) map) b o l =
      .ok (.number x) := by
  intro engine hengine l
  have hpick : pickBinary env.rt.standard 1082 (some "ms") = .ok (binDateEpoch env.rt.standard) := rfl
  have hdecoder := binary_picked (standardEnv env) map (msCol 1082 .binary) rfl hpick engine hengine
  show (engine (standardEnv env) (msCol 1082 .binary) map >>= fun d => d b o l) = _
  rw [hdecoder]
  show (dateMs env.rt.standard b o >>= fun x => pure (Value.number x)) = _
  rw [hx]
  rfl

end Columns

end Minipg.Cells
