import Minipg.Decode.Places
import Minipg.Decode.Scan

/-!
# Texts of instants

The dates and timestamps of the server in the ISO style, with the instants that they denote in the
proleptic Gregorian calendar.  The parsers of `src/temporal.ts` read in them the instant in
milliseconds, rounded down, or `NaN` where no `Date` can hold it (`instantFromBytes_exact`).
-/

namespace Minipg.Cells

open Js

/-- Two digits. -/
abbrev TwoDigits := Fin 100

def TwoDigits.chars (n : TwoDigits) : List Nat := digitChars [n.val / 10, n.val % 10]

inductive Zone
  /-- `Z` -/
  | utc
  /-- Hours, and minutes with seconds where they are there. -/
  | offset (west : Bool) (hours : TwoDigits) (rest : Option (TwoDigits × Option TwoDigits))
  deriving DecidableEq, Repr

namespace Zone

/-- In seconds. -/
def size : Zone → Nat
  | utc => 0
  | offset _ hours rest =>
    let minutes := (rest.map Prod.fst).getD 0
    let seconds := (rest.bind Prod.snd).getD 0
    (hours.val * 60 + minutes.val) * 60 + seconds.val

def seconds : Zone → Int
  | utc => 0
  | offset west hours rest =>
    let size : Nat := (offset west hours rest).size
    if west then -size else size

def chars : Zone → List Nat
  | utc => [90]
  | offset west hours rest =>
    (if west then 45 else 43) :: (hours.chars ++ match rest with
      | none => []
      | some (minutes, seconds) => 58 :: (minutes.chars ++ match seconds with
        | none => []
        | some seconds => 58 :: seconds.chars))

end Zone

/-- The time behind a date. -/
structure Clock where
  /-- `T`, or a space. -/
  t : Bool
  hours : TwoDigits
  minutes : TwoDigits
  seconds : TwoDigits
  /-- Up to the microseconds. -/
  fraction : List (Fin 10)
  fraction_le : fraction.length ≤ 6
  zone : Option Zone

namespace Clock

def fractionDigits (k : Clock) : List Nat := k.fraction.map Fin.val

def fractionChars (k : Clock) : List Nat :=
  if k.fraction = [] then [] else 46 :: digitChars k.fractionDigits

def zoneChars (k : Clock) : List Nat :=
  match k.zone with
  | none => []
  | some z => z.chars

def chars (k : Clock) : List Nat :=
  (if k.t then 84 else 32) :: (k.hours.chars ++ 58 :: (k.minutes.chars ++ 58 :: (k.seconds.chars ++
    (k.fractionChars ++ k.zoneChars))))

def offset (k : Clock) : Int :=
  match k.zone with
  | none => 0
  | some z => z.seconds

/-- The digits of the fraction, filled up to the microseconds. -/
def micros (k : Clock) : Nat :=
  readDecimal 0 (k.fractionDigits ++ List.replicate (6 - k.fraction.length) 0)

end Clock

/-- A date, with or without a time.  The server has no year after 5874897. -/
structure IsoText where
  year : List (Fin 10)
  year_long : 4 ≤ year.length
  year_le : readDecimal 0 (year.map Fin.val) ≤ 9007199254740991
  bc : Bool
  month : TwoDigits
  month_bounds : 1 ≤ month.val ∧ month.val ≤ 12
  day : TwoDigits
  clock : Option Clock

namespace IsoText

variable (t : IsoText)

def yearDigits : List Nat := t.year.map Fin.val

/-- 1 BC is the year 0. -/
def astronomical : Int :=
  if t.bc then 1 - readDecimal 0 t.yearDigits else readDecimal 0 t.yearDigits

def clockChars : List Nat :=
  match t.clock with
  | none => []
  | some k => k.chars

/-- What comes before the era. -/
def body : List Nat :=
  digitChars t.yearDigits ++ 45 :: (t.month.chars ++ 45 :: (t.day.chars ++ t.clockChars))

def chars : List Nat := t.body ++ if t.bc then [32, 66, 67] else []

def text : Bytes := t.chars.map byteOf

/-- The microseconds from 1970-01-01 00:00 UTC on. -/
def instant : Int :=
  epochDay t.astronomical (t.month.val - 1) t.day.val * 86400000000 +
    match t.clock with
    | none => 0
    | some k =>
      (k.hours.val * 3600 + k.minutes.val * 60 + k.seconds.val - k.offset) * 1000000 + k.micros

end IsoText

/-! ### Two digits and offsets -/

section Reading

variable (rt : Runtime) {c : Chars}

theorem two_reads {p : Nat} (n : TwoDigits) {s : List Nat} (h : ReadsAt c p (n.chars ++ s)) :
    twoDigits rt.standard c p = .ofInt n.val ∧ ReadsAt c (p + 2) s := by
  obtain ⟨htwo, hrest⟩ := readsAt_append.mp h
  exact ⟨twoDigits_digits rt n.isLt htwo, hrest⟩

theorem colonAt_reads {p e : Nat} (n : TwoDigits) {s : List Nat}
    (h : ReadsAt c p (58 :: (n.chars ++ s))) (he : p < e) :
    colonAt rt.standard c p e = some (.ofInt n.val) ∧ ReadsAt c (p + 3) s := by
  obtain ⟨hc, hrest⟩ := readsAt_cons.mp h
  obtain ⟨htwo, hrest⟩ := two_reads rt n hrest
  unfold colonAt
  rw [if_pos ⟨he, hc⟩, htwo]
  exact ⟨rfl, hrest⟩

theorem colonAt_end {p e : Nat} (he : e ≤ p) : colonAt rt.standard c p e = none :=
  if_neg fun h => Nat.not_lt.mpr he h.1

theorem seconds_ofInt (h m s : TwoDigits) :
    Double.add (.mul (.add (.mul (.ofInt h.val) (.ofInt 60)) (.ofInt m.val)) (.ofInt 60))
      (.ofInt s.val) = .ofInt ((h.val * 60 + m.val) * 60 + s.val : Nat) := by
  have hh := h.isLt
  have hm := m.isLt
  have hs := s.isLt
  have hmul := Double.mul_ofInt (safe_natCast (n := h.val) (by omega))
    (show Double.Safe 60 by decide) (.inr ⟨by omega, by decide⟩)
  have hadd := Double.add_ofInt (safe_natCast (n := h.val * 60) (by omega))
    (safe_natCast (n := m.val) (by omega))
  have hmul' := Double.mul_ofInt (safe_natCast (n := h.val * 60 + m.val) (by omega))
    (show Double.Safe 60 by decide) (.inr ⟨by omega, by decide⟩)
  have hadd' := Double.add_ofInt (safe_natCast (n := (h.val * 60 + m.val) * 60) (by omega))
    (safe_natCast (n := s.val) (by omega))
  push_cast at hmul hadd hmul' hadd' ⊢
  rw [hmul, hadd, hmul', hadd']

/-- What seconds are less the offset; the offset itself may be a zero with a sign. -/
def Shifts (x : Double) (off : Int) : Prop :=
  ∀ s : TwoDigits, Double.sub (.ofInt s.val) x = .ofInt (s.val - off)

theorem shifts_ofInt {off : Int} (h : off.natAbs < 1000000) : Shifts (.ofInt off) off := by
  intro s
  have hs := s.isLt
  exact Double.sub_ofInt (safe_natCast (by omega)) ⟨by omega, by omega⟩

/-- Minus zero. -/
theorem mul_neg_zero : Double.mul (.ofInt (-1)) (.ofInt 0) = .round true 0 := by
  have hone : Double.Safe (-1) := by decide
  have hzero : Double.Safe 0 := by decide
  unfold Double.mul
  simp only [Double.isNaN_ofInt hone, Double.isNaN_ofInt hzero, Double.isInfinite_ofInt hone,
    Double.isInfinite_ofInt hzero, Double.negative_ofInt hone, Double.negative_ofInt hzero,
    Double.value_ofInt hone, Double.value_ofInt hzero]
  norm_num

theorem shifts_zero : Shifts (.round true 0) 0 := by
  intro s
  have hs := s.isLt
  have hneg : Double.neg (.round true 0) = .ofInt 0 := by
    rw [Double.neg_round]
    rfl
  unfold Double.sub
  rw [hneg, Double.add_ofInt (safe_natCast (by omega)) (by decide), Int.add_zero, Int.sub_zero]

/-- The offset with its sign. -/
theorem shifts_signed (west : Bool) {a : Nat} (ha : a < 1000000) :
    Shifts (.mul (.ofInt (if west then -1 else 1)) (.ofInt a)) (if west then -a else a) := by
  have hsafe : Double.Safe a := safe_natCast (by omega)
  cases west with
  | false =>
    have hmul := Double.mul_ofInt (show Double.Safe 1 by decide) hsafe (.inr ⟨by decide, by omega⟩)
    rw [Int.one_mul] at hmul
    rw [if_neg Bool.false_ne_true, if_neg Bool.false_ne_true, hmul]
    exact shifts_ofInt (by omega)
  | true =>
    rw [if_pos rfl, if_pos rfl]
    by_cases h0 : a = 0
    · subst h0
      have hzero := mul_neg_zero
      rw [show ((0 : Nat) : Int) = 0 from rfl, hzero]
      exact shifts_zero
    · have hmul := Double.mul_ofInt (show Double.Safe (-1) by decide) hsafe (.inl (by omega))
      rw [Int.neg_one_mul] at hmul
      rw [hmul]
      exact shifts_ofInt (by omega)

theorem Zone.size_lt (z : Zone) : z.size < 1000000 := by
  cases z with
  | utc => decide
  | offset west hours rest =>
    have hh := hours.isLt
    have hm := ((rest.map Prod.fst).getD 0).isLt
    have hs := ((rest.bind Prod.snd).getD 0).isLt
    unfold Zone.size
    dsimp only
    omega

/-- The offset of a zone, at the end. -/
theorem offsetAt_zone {p e : Nat} (z : Zone) (h : ReadsAt c p z.chars)
    (he : e = p + z.chars.length) :
    ∃ x, offsetAt rt.standard c p e = (e, x) ∧ Shifts x z.seconds := by
  cases z with
  | utc =>
    have hc : c p = some 90 := (readsAt_cons.mp h).1
    have he : e = p + 1 := he
    refine ⟨.ofInt 0, ?_, shifts_ofInt (by decide)⟩
    unfold offsetAt
    rw [if_neg (by rw [hc]; simp), if_pos ⟨by omega, hc⟩, he]
    rfl
  | offset west hours rest =>
    have hshift := shifts_signed west (Zone.offset west hours rest).size_lt
    refine ⟨_, ?_, hshift⟩
    obtain ⟨hsign, h⟩ := readsAt_cons.mp h
    obtain ⟨hhours, h⟩ := two_reads rt hours h
    have hchar : c p = some 43 ∨ c p = some 45 := by
      rw [hsign]
      cases west with
      | false => exact .inl rfl
      | true => exact .inr rfl
    have hwest : (if c p = some 45 then (-1 : Int) else 1) = if west then -1 else 1 := by
      rw [hsign]
      cases west <;> rfl
    have hlen : p + 3 ≤ e := by
      rw [he]
      simp only [Zone.chars, List.length_cons, List.length_append, TwoDigits.chars,
        length_digitChars, List.length_nil]
      omega
    unfold offsetAt
    rw [if_pos ⟨by omega, hchar⟩]
    dsimp only
    rw [hwest, hhours]
    cases rest with
    | none =>
      have he : e = p + 3 := he
      have hmin : colonAt rt.standard c (p + 3) e = none := colonAt_end rt (by omega)
      rw [hmin, he]
      exact congrArg (fun x => (p + 3, Double.mul _ x)) (seconds_ofInt hours 0 0)
    | some r =>
      obtain ⟨minutes, seconds⟩ := r
      have hend : e = p + 6 + (match seconds with
          | none => []
          | some seconds => 58 :: TwoDigits.chars seconds).length := by
        rw [he]
        simp only [Zone.chars, List.length_cons, List.length_append, TwoDigits.chars,
          length_digitChars, List.length_nil]
        omega
      obtain ⟨hmin, h⟩ := colonAt_reads (e := e) rt minutes h (by omega)
      have hmin : colonAt rt.standard c (p + 3) e = _ := hmin
      rw [hmin]
      cases seconds with
      | none =>
        have hend : e = p + 6 := hend
        have hsec : colonAt rt.standard c (p + 6) e = none := colonAt_end rt (by omega)
        dsimp only
        rw [hsec, hend]
        exact congrArg (fun x => (p + 6, Double.mul _ x)) (seconds_ofInt hours minutes 0)
      | some seconds =>
        have hend : e = p + 9 := hend
        have h : ReadsAt c (p + 6) (58 :: (seconds.chars ++ [])) := by
          rw [List.append_nil]
          exact h
        obtain ⟨hsec, -⟩ := colonAt_reads (e := e) rt seconds h (by omega)
        dsimp only
        rw [hsec, hend]
        exact congrArg (fun x => (p + 9, Double.mul _ x)) (seconds_ofInt hours minutes seconds)

/-! ### Times -/

namespace Clock

variable (k : Clock)

theorem fractionDigits_lt : ∀ d ∈ k.fractionDigits, d < 10 := by
  intro d hd
  obtain ⟨f, -, rfl⟩ := List.mem_map.mp hd
  exact f.isLt

theorem fractionDigits_length : k.fractionDigits.length = k.fraction.length := List.length_map ..

theorem filled_lt :
    ∀ d ∈ k.fractionDigits ++ List.replicate (6 - k.fraction.length) 0, d < 10 := by
  intro d hd
  rcases List.mem_append.mp hd with hd | hd
  · exact k.fractionDigits_lt d hd
  · rw [List.eq_of_mem_replicate hd]
    decide

/-- The milliseconds are the first three digits. -/
theorem micros_ms : readDecimal 0 (k.fractionDigits.take 3 ++
    List.replicate (3 - k.fractionDigits.length) 0) = k.micros / 1000 := by
  have hle := k.fraction_le
  have hlen := k.fractionDigits_length
  have htake := readDecimal_take 3 3 k.filled_lt (by
    rw [List.length_append, List.length_replicate, hlen]
    omega)
  rw [List.take_append, List.take_replicate, Nat.min_eq_left (by omega)] at htake
  rw [htake]
  rfl

theorem micros_lt : k.micros < 1000000 := by
  have hle := k.fraction_le
  have hlt := readDecimal_lt k.filled_lt
  rw [List.length_append, List.length_replicate, k.fractionDigits_length,
    show k.fraction.length + (6 - k.fraction.length) = 6 by omega] at hlt
  exact hlt

end Clock

theorem Clock.offset_lt (k : Clock) : k.offset.natAbs < 1000000 := by
  unfold Clock.offset
  cases k.zone with
  | none => decide
  | some z =>
    have hlt := z.size_lt
    cases z with
    | utc => decide
    | offset west hours rest =>
      show (if west then -(Zone.size _ : Int) else Zone.size _).natAbs < 1000000
      split
      all_goals omega

/-- What may come after a fraction. -/
def EndsFraction (c : Chars) (p e : Nat) : Prop :=
  p < e → c p = some 43 ∨ c p = some 45 ∨ c p = some 90

theorem EndsFraction.noDigit {p e : Nat} (h : EndsFraction c p e) (hlt : p < e) :
    noDigit (c p) = true := by
  rcases h hlt with h | h | h
  · exact noDigit_other (.inl (by decide)) h
  · exact noDigit_other (.inl (by decide)) h
  · exact noDigit_other (.inr (by decide)) h

theorem endsFraction_zone {k : Clock} {p e : Nat} (h : ReadsAt c p k.zoneChars)
    (he : e = p + k.zoneChars.length) : EndsFraction c p e := by
  intro hlt
  unfold Clock.zoneChars at h he
  cases hz : k.zone with
  | none =>
    rw [hz] at he
    exact absurd he (Nat.ne_of_gt hlt)
  | some z =>
    rw [hz] at h
    cases z with
    | utc => exact .inr (.inr (readsAt_cons.mp h).1)
    | offset west hours rest =>
      have hsign := (readsAt_cons.mp h).1
      cases west with
      | false => exact .inl hsign
      | true => exact .inr (.inl hsign)

theorem fractionAt_digits {p e : Nat} (k : Clock) (h : ReadsAt c p k.fractionChars)
    (he : p + k.fractionChars.length ≤ e)
    (hnext : EndsFraction c (p + k.fractionChars.length) e) :
    fractionAt rt.standard c p e =
      (p + k.fractionChars.length, .ofInt (k.micros / 1000 : Nat)) := by
  have hms := k.micros_ms
  unfold Clock.fractionChars at h he hnext ⊢
  by_cases hnil : k.fraction = []
  · simp only [if_pos hnil, List.length_nil, Nat.add_zero] at hnext ⊢
    have hzero : k.micros / 1000 = 0 := by
      rw [← hms, Clock.fractionDigits, hnil]
      rfl
    have hpoint : ¬(p < e ∧ c p = some 46) := by
      rintro ⟨hlt, hc⟩
      have hsign := hnext hlt
      rw [hc] at hsign
      revert hsign
      decide
    unfold fractionAt
    rw [if_neg hpoint, hzero]
    rfl
  · simp only [if_neg hnil, List.length_cons, length_digitChars] at h he hnext ⊢
    obtain ⟨hc, hread⟩ := readsAt_cons.mp h
    have hlast : p + (k.fractionDigits.length + 1) = p + 1 + k.fractionDigits.length := by omega
    rw [hlast] at hnext
    have hsplit : digitChars k.fractionDigits = digitChars (k.fractionDigits.take 3) ++
        digitChars (k.fractionDigits.drop 3) := by
      rw [← digitChars_append, List.take_append_drop]
    have hsafe : readDecimal 0 (k.fractionDigits.take 3 ++
        List.replicate (3 - k.fractionDigits.length) 0) < 2 ^ 53 := by
      have hlt := k.micros_lt
      omega
    have hloop := fractionLoop_digits rt k.fractionDigits_lt hread (by omega)
      (fun hlt => hnext.noDigit hlt) hsafe
    rw [hsplit] at hread
    have hrest := (readsAt_append.mp hread).2
    rw [length_digitChars, List.length_take] at hrest
    have hdrop : (k.fractionDigits.drop 3).length = k.fractionDigits.length - 3 :=
      List.length_drop
    have hpos : p + 1 + min 3 k.fractionDigits.length + (k.fractionDigits.drop 3).length =
        p + 1 + k.fractionDigits.length := by
      omega
    have hskip := skipDigits_digits (fun d hd => k.fractionDigits_lt d (List.mem_of_mem_drop hd))
      hrest (k := e - (p + 1 + min 3 k.fractionDigits.length)) (by omega) (fun hlt => by
        rw [hpos]
        exact hnext.noDigit (by omega))
    unfold fractionAt
    rw [if_pos ⟨by omega, hc⟩]
    simp only [show rt.standard.int 0 = Double.ofInt (0 : Nat) from rfl, hloop, hskip, hms, hpos,
      hlast]

/-- The time from its first digit on. -/
theorem timeAt_clock {p e : Nat} (k : Clock) (h : ReadsAt c p k.chars.tail)
    (he : e = p + k.chars.tail.length) :
    badTime c p e = false ∧ ∃ x, Shifts x k.offset ∧
      timeAt rt.standard c p e = (⟨.ofInt k.hours.val, .ofInt k.minutes.val, .ofInt k.seconds.val,
        .ofInt (k.micros / 1000 : Nat), x⟩, e) := by
  have h : ReadsAt c p (k.hours.chars ++ 58 :: (k.minutes.chars ++ 58 :: (k.seconds.chars ++
    (k.fractionChars ++ k.zoneChars)))) := h
  have he : e = p + 8 + k.fractionChars.length + k.zoneChars.length := by
    rw [he]
    simp only [Clock.chars, List.tail_cons, List.length_cons, List.length_append, TwoDigits.chars,
      length_digitChars, List.length_nil]
    omega
  obtain ⟨hh, h⟩ := two_reads rt k.hours h
  obtain ⟨hcolon, h⟩ := readsAt_cons.mp h
  obtain ⟨hmi, h⟩ := two_reads rt k.minutes h
  obtain ⟨hcolon', h⟩ := readsAt_cons.mp h
  obtain ⟨hs, h⟩ := two_reads rt k.seconds h
  obtain ⟨hfraction, hzone⟩ := readsAt_append.mp h
  have hfrac : fractionAt rt.standard c (p + 8) e = _ :=
    fractionAt_digits rt k hfraction (by omega) (endsFraction_zone hzone he)
  have hoff : ∃ x, offsetAt rt.standard c (p + 8 + k.fractionChars.length) e = (e, x) ∧
      Shifts x k.offset := by
    unfold Clock.zoneChars at hzone he
    unfold Clock.offset
    cases hz : k.zone with
    | none =>
      rw [hz] at he
      have he : e = p + 8 + k.fractionChars.length := he
      refine ⟨.ofInt 0, ?_, shifts_ofInt (by decide)⟩
      unfold offsetAt
      rw [if_neg (fun hs => absurd hs.1 (by omega)), if_neg (fun hs => absurd hs.1 (by omega)), he]
      rfl
    | some z =>
      rw [hz] at hzone he
      exact offsetAt_zone rt z hzone he
  obtain ⟨x, hx, hshift⟩ := hoff
  refine ⟨?_, x, hshift, ?_⟩
  · refine decide_eq_false ?_
    rintro (hshort | hno | hno)
    · omega
    · exact hno hcolon
    · exact hno hcolon'
  · have hmi : twoDigits rt.standard c (p + 3) = _ := hmi
    have hs : twoDigits rt.standard c (p + 6) = _ := hs
    unfold timeAt
    rw [hh, hmi, hs, hfrac]
    dsimp only
    rw [hx]

/-! ### Fields -/

theorem instantOf_eq {y mo d : Double} {bc : Bool} {t : Time} {year : Int}
    (hy : (if bc then Double.sub (.ofInt 1) y else y) = .ofInt year)
    (hyear : -9007199254740990 ≤ year ∧ year ≤ 9007199254740991) :
    instantOf rt.standard y bc mo d t =
      if 0 ≤ year ∧ year ≤ 99 then
        .sub (dateUtc (.ofInt (year + 400)) (.sub mo (.ofInt 1)) d t.h t.mi (.sub t.s t.off) t.ms)
          (.ofInt 12622780800000)
      else dateUtc (.ofInt year) (.sub mo (.ofInt 1)) d t.h t.mi (.sub t.s t.off) t.ms := by
  have hsafe : Double.Safe year := ⟨by omega, by omega⟩
  have hlow := Double.le_ofInt (show Double.Safe 0 by decide) hsafe
  have hhigh := Double.le_ofInt hsafe (show Double.Safe 99 by decide)
  have hadd := fun k (hk : Double.Safe k) => Double.add_ofInt hsafe hk
  unfold instantOf
  simp only [Runtime.standard, hy, hlow, hhigh, decide_eq_true_eq]
  by_cases hearly : 0 ≤ year ∧ year ≤ 99
  · simp only [if_pos hearly, hadd 400 (by decide)]
    rfl
  · simp only [if_neg hearly, hadd 0 (by decide), Int.add_zero]

/-- The years of one and two digits are where they belong. -/
theorem instantOf_fields {y : Double} {bc : Bool} {year : Int} {month day h mi s : TwoDigits}
    {ms : Nat} {off : Int} {x : Double}
    (hy : (if bc then Double.sub (.ofInt 1) y else y) = .ofInt year)
    (hyear : -9007199254740990 ≤ year ∧ year ≤ 9007199254740991) (hms : ms < 1000)
    (hoff : off.natAbs < 1000000) (hx : Shifts x off) :
    instantOf rt.standard y bc (.ofInt month.val) (.ofInt day.val)
      ⟨.ofInt h.val, .ofInt mi.val, .ofInt s.val, .ofInt ms, x⟩ =
    timeClip (makeDate year (month.val - 1) day.val h.val mi.val (s.val - off) ms) := by
  have hmonth := month.isLt
  have hday := day.isLt
  have hhours := h.isLt
  have hminutes := mi.isLt
  have hseconds := s.isLt
  have hmo := Double.sub_ofInt (safe_natCast (n := month.val) (by omega))
    (show Double.Safe 1 by decide)
  have hfields : ∀ y : Int, Double.Safe y → ∀ n ∈ [y, (month.val : Int) - 1, day.val, h.val,
      mi.val, (s.val : Int) - off, ms], Double.Safe n := by
    intro y hy n hn
    simp only [List.mem_cons, List.not_mem_nil, or_false] at hn
    rcases hn with rfl | hn
    · exact hy
    · have hsmall : -9007199254740991 ≤ n ∧ n ≤ 9007199254740991 := by omega
      exact hsmall
  rw [instantOf_eq rt hy hyear]
  dsimp only
  rw [hmo, hx s]
  by_cases hearly : 0 ≤ year ∧ year ≤ 99
  · rw [if_pos hearly, dateUtc_ofInt (hfields (year + 400) ⟨by omega, by omega⟩) (by omega),
      makeDate_add]
    have hfirst : -800000 ≤ firstOfMonth year (month.val - 1) ∧
        firstOfMonth year (month.val - 1) ≤ 10000 := by
      unfold firstOfMonth
      dsimp only
      omega
    generalize ht : makeDate year (month.val - 1) day.val h.val mi.val (s.val - off) ms = t
    have hbounds : -80000000000000 ≤ t ∧ t ≤ 10000000000000 := by
      unfold makeDate at ht
      omega
    have hclip : Clipped t := ⟨by omega, by omega⟩
    have hclip' : Clipped (t + 12622780800000) := ⟨by omega, by omega⟩
    rw [timeClip_of hclip, timeClip_of hclip',
      Double.sub_ofInt (safe_of_clipped hclip') (by decide)]
    congr 1
    omega
  · rw [if_neg hearly, dateUtc_ofInt (hfields year ⟨by omega, by omega⟩) (by omega)]

/-! ### Texts -/

/-- Neither beyond ASCII nor the letter that ends an era. -/
def Plain (x : Nat) : Prop := x < 128 ∧ x ≠ 67

theorem plain_digits {ds : List Nat} (h : ∀ d ∈ ds, d < 10) : ∀ x ∈ digitChars ds, Plain x := by
  intro x hx
  obtain ⟨d, hd, rfl⟩ := List.mem_map.mp hx
  have hlt := h d hd
  exact ⟨by omega, by omega⟩

theorem plain_two (n : TwoDigits) : ∀ x ∈ n.chars, Plain x := by
  have hlt := n.isLt
  refine plain_digits fun d hd => ?_
  simp only [List.mem_cons, List.not_mem_nil, or_false] at hd
  omega

theorem plain_nil : ∀ x ∈ ([] : List Nat), Plain x := nofun

theorem plain_cons {a : Nat} {s : List Nat} (ha : Plain a) (hs : ∀ x ∈ s, Plain x) :
    ∀ x ∈ a :: s, Plain x := List.forall_mem_cons.mpr ⟨ha, hs⟩

theorem plain_append {s s' : List Nat} (hs : ∀ x ∈ s, Plain x) (hs' : ∀ x ∈ s', Plain x) :
    ∀ x ∈ s ++ s', Plain x := List.forall_mem_append.mpr ⟨hs, hs'⟩

theorem Zone.plain (z : Zone) : ∀ x ∈ z.chars, Plain x := by
  cases z with
  | utc => exact plain_cons ⟨by decide, by decide⟩ plain_nil
  | offset west hours rest =>
    refine plain_cons ?_ (plain_append (plain_two hours) ?_)
    · cases west
      all_goals exact ⟨by decide, by decide⟩
    · cases rest with
      | none => exact plain_nil
      | some r =>
        obtain ⟨minutes, seconds⟩ := r
        refine plain_cons ⟨by decide, by decide⟩ (plain_append (plain_two minutes) ?_)
        cases seconds with
        | none => exact plain_nil
        | some seconds => exact plain_cons ⟨by decide, by decide⟩ (plain_two seconds)

theorem Clock.plain (k : Clock) : ∀ x ∈ k.chars, Plain x := by
  have hcolon : Plain 58 := ⟨by decide, by decide⟩
  refine plain_cons ?_ (plain_append (plain_two _) (plain_cons hcolon (plain_append (plain_two _)
    (plain_cons hcolon (plain_append (plain_two _) (plain_append ?_ ?_))))))
  · cases k.t
    all_goals exact ⟨by decide, by decide⟩
  · unfold Clock.fractionChars
    split
    · exact plain_nil
    · exact plain_cons ⟨by decide, by decide⟩ (plain_digits k.fractionDigits_lt)
  · unfold Clock.zoneChars
    cases k.zone with
    | none => exact plain_nil
    | some z => exact z.plain

namespace IsoText

variable (t : IsoText)

theorem yearDigits_lt : ∀ d ∈ t.yearDigits, d < 10 := by
  intro d hd
  obtain ⟨f, -, rfl⟩ := List.mem_map.mp hd
  exact f.isLt

theorem plain_body : ∀ x ∈ t.body, Plain x := by
  have hminus : Plain 45 := ⟨by decide, by decide⟩
  refine plain_append (plain_digits t.yearDigits_lt) (plain_cons hminus (plain_append (plain_two _)
    (plain_cons hminus (plain_append (plain_two _) ?_))))
  unfold clockChars
  cases t.clock with
  | none => exact plain_nil
  | some k => exact k.plain

theorem chars_lt : ∀ x ∈ t.chars, x < 128 := by
  intro x hx
  rcases List.mem_append.mp hx with hx | hx
  · exact (t.plain_body x hx).1
  · have hera : ∀ bc : Bool, ∀ x ∈ (if bc then [32, 66, 67] else [] : List Nat), x < 128 := by
      decide
    exact hera t.bc x hx

/-- The bytes are the characters. -/
theorem reads : ReadsAt (Cells.chars t.text) 0 t.chars := by
  intro i hi
  unfold Cells.chars text
  rw [Nat.zero_add, List.getElem?_map, List.getElem?_eq_getElem hi]
  have hlt := t.chars_lt t.chars[i] (List.getElem_mem hi)
  show some (byteOf _).toNat = _
  rw [toNat_byteOf (by omega)]

theorem text_length : t.text.length = t.chars.length := List.length_map ..

/-- The era is seen at the end, and nowhere else. -/
theorem isBc_text : isBc (Cells.chars t.text) 0 t.text.length = t.bc := by
  have hread := t.reads
  rw [text_length]
  unfold isBc
  unfold chars at hread ⊢
  cases hbc : t.bc with
  | true =>
    rw [hbc] at hread
    obtain ⟨-, hera⟩ := readsAt_append.mp hread
    obtain ⟨h1, hera⟩ := readsAt_cons.mp hera
    obtain ⟨h2, hera⟩ := readsAt_cons.mp hera
    obtain ⟨h3, -⟩ := readsAt_cons.mp hera
    have hlen : (t.body ++ if true then [32, 66, 67] else []).length = t.body.length + 3 :=
      List.length_append
    rw [Nat.zero_add] at h1 h2 h3
    rw [hlen]
    exact decide_eq_true ⟨by omega, h3, h2, h1⟩
  | false =>
    rw [hbc] at hread
    have hbody : t.body ++ (if false then [32, 66, 67] else []) = t.body := List.append_nil _
    rw [hbody] at hread ⊢
    refine decide_eq_false ?_
    rintro ⟨hle, hlast, -⟩
    have hlt : t.body.length - 1 < t.body.length := by omega
    have hchar := hread (t.body.length - 1) hlt
    rw [Nat.zero_add, hlast, List.getElem?_eq_getElem hlt] at hchar
    exact (t.plain_body _ (List.getElem_mem hlt)).2 (Option.some.inj hchar).symm

theorem astronomical_bounds : -9007199254740990 ≤ t.astronomical ∧
    t.astronomical ≤ 9007199254740991 := by
  have hle : readDecimal 0 t.yearDigits ≤ 9007199254740991 := t.year_le
  unfold astronomical
  split
  all_goals omega

theorem astronomical_double :
    (if t.bc then Double.sub (.ofInt 1) (.ofInt (readDecimal 0 t.yearDigits : Nat)) else
      .ofInt (readDecimal 0 t.yearDigits : Nat)) = Double.ofInt t.astronomical := by
  have hle : readDecimal 0 t.yearDigits ≤ 9007199254740991 := t.year_le
  have hsub := Double.sub_ofInt (show Double.Safe 1 by decide)
    (show Double.Safe (readDecimal 0 t.yearDigits : Nat) from ⟨by omega, by omega⟩)
  unfold astronomical
  by_cases hbc : t.bc = true
  · rw [if_pos hbc, if_pos hbc, hsub]
  · rw [if_neg hbc, if_neg hbc]

/-- The parser as far as the date. -/
theorem instantFrom_date :
    instantFrom rt.standard (Cells.chars t.text) 0 t.text.length =
      let c := Cells.chars t.text
      let q := t.yearDigits.length + 6
      let e := t.body.length
      let finish (time : Time) := instantOf rt.standard (.ofInt (readDecimal 0 t.yearDigits : Nat))
        t.bc (.ofInt t.month.val) (.ofInt t.day.val) time
      if startsTime c q e then
        if badTime c (q + 1) e then none
        else if (timeAt rt.standard c (q + 1) e).2 ≠ e then none
        else some (finish (timeAt rt.standard c (q + 1) e).1)
      else if q ≠ e then none
      else some (finish (noTime rt.standard)) := by
  have hread := t.reads
  have hlong := t.year_long
  have hyear : t.yearDigits.length = t.year.length := List.length_map ..
  have hend : (if isBc (Cells.chars t.text) 0 t.text.length then t.text.length - 3
      else t.text.length) = t.body.length := by
    rw [isBc_text, text_length, chars, List.length_append]
    cases t.bc with
    | true => exact Nat.add_sub_cancel ..
    | false => rfl
  have hbody := (readsAt_append.mp hread).1
  have hlen : t.body.length = t.yearDigits.length + 6 + t.clockChars.length := by
    simp only [body, List.length_append, List.length_cons, length_digitChars, TwoDigits.chars,
      List.length_nil]
    omega
  have hfirst : ReadsAt (Cells.chars t.text) 0 (digitChars t.yearDigits ++ [45]) := by
    have hsplit : t.body = (digitChars t.yearDigits ++ [45]) ++
        (t.month.chars ++ 45 :: (t.day.chars ++ t.clockChars)) := by
      simp only [body, List.append_assoc, List.singleton_append]
    rw [hsplit] at hbody
    exact (readsAt_append.mp hbody).1
  have hloop := yearLoop_digits rt t.yearDigits_lt (.inl (by decide)) (y := 0) (n := 0)
    (m := t.body.length) hfirst (by have hle := t.year_le; unfold yearDigits; omega) (by omega)
  obtain ⟨-, hrest⟩ := readsAt_append.mp hbody
  obtain ⟨hminus, hrest⟩ := readsAt_cons.mp hrest
  obtain ⟨hmonth, hrest⟩ := two_reads rt t.month hrest
  obtain ⟨hminus', hrest⟩ := readsAt_cons.mp hrest
  obtain ⟨hday, -⟩ := two_reads rt t.day hrest
  rw [length_digitChars, Nat.zero_add] at hminus hmonth hminus' hday
  have hgood : badDate (Cells.chars t.text) t.yearDigits.length t.body.length
      t.yearDigits.length = false := by
    refine decide_eq_false ?_
    rintro (hshort | hno | hno | hno)
    · omega
    · exact hno hminus
    · exact hno hminus'
    · omega
  have hday : twoDigits rt.standard (Cells.chars t.text) (t.yearDigits.length + 4) = _ := hday
  rw [Nat.zero_add] at hloop
  unfold instantFrom
  dsimp only
  rw [hend, isBc_text, Nat.sub_zero]
  rw [show rt.standard.int 0 = Double.ofInt ((0 : Nat) : Int) from rfl, hloop]
  dsimp only
  rw [hgood, if_neg Bool.false_ne_true, hmonth, hday]

/-- The milliseconds are those of the instant, rounded down. -/
theorem makeDate_instant {h mi s us : Nat} {off : Int}
    (hinstant : t.instant = epochDay t.astronomical (t.month.val - 1) t.day.val * 86400000000 +
      ((h * 3600 + mi * 60 + s - off) * 1000000 + us)) :
    makeDate t.astronomical (t.month.val - 1) t.day.val h mi (s - off) (us / 1000 : Nat) =
      t.instant / 1000 := by
  obtain ⟨hlo, hhi⟩ := t.month_bounds
  have hmonth : ((t.month.val : Int) - 1) = ((t.month.val - 1 : Nat) : Int) := by omega
  have hday := firstOfMonth_epochDay t.astronomical t.day.val
    (show t.month.val - 1 ≤ 12 by omega)
  unfold makeDate
  rw [hmonth, hday, hinstant]
  omega

theorem instantFrom_text : instantFrom rt.standard (Cells.chars t.text) 0 t.text.length =
    some (timeClip (t.instant / 1000)) := by
  have hread := (readsAt_append.mp t.reads).1
  have hlen : t.body.length = t.yearDigits.length + 6 + t.clockChars.length := by
    simp only [body, List.length_append, List.length_cons, length_digitChars, TwoDigits.chars,
      List.length_nil]
    omega
  have hclock : ReadsAt (Cells.chars t.text) (t.yearDigits.length + 6) t.clockChars := by
    have hsplit : t.body = (digitChars t.yearDigits ++ 45 :: (t.month.chars ++ 45 :: t.day.chars))
        ++ t.clockChars := by
      simp only [body, List.append_assoc, List.cons_append]
    rw [hsplit] at hread
    obtain ⟨-, hrest⟩ := readsAt_append.mp hread
    rw [Nat.zero_add] at hrest
    simpa [TwoDigits.chars] using hrest
  rw [t.instantFrom_date rt]
  dsimp only
  unfold clockChars at hlen hclock
  cases hk : t.clock with
  | none =>
    rw [hk] at hlen
    have hend : t.yearDigits.length + 6 = t.body.length := hlen.symm
    have hstarts : startsTime (Cells.chars t.text) (t.yearDigits.length + 6) t.body.length =
        false := decide_eq_false fun h => absurd h.1 (by omega)
    have hvalue := @makeDate_instant t 0 0 0 0 0 (by
      unfold instant
      rw [hk]
      rfl)
    rw [hstarts, if_neg Bool.false_ne_true, if_neg (not_not.mpr hend), ← hvalue]
    exact congrArg some (@instantOf_fields rt _ _ _ t.month t.day 0 0 0 0 0 _
      t.astronomical_double t.astronomical_bounds (by decide) (by decide)
      (shifts_ofInt (by decide)))
  | some k =>
    rw [hk] at hlen hclock
    obtain ⟨hmark, hclock⟩ := readsAt_cons.mp hclock
    have hend : t.body.length = t.yearDigits.length + 6 + 1 + k.chars.tail.length := by
      rw [hlen]
      show _ + (k.chars.tail.length + 1) = _
      omega
    obtain ⟨hgood, x, hshift, htime⟩ := timeAt_clock rt k hclock hend
    have hstarts : startsTime (Cells.chars t.text) (t.yearDigits.length + 6) t.body.length =
        true := by
      refine decide_eq_true ⟨by omega, ?_⟩
      rw [hmark]
      cases k.t with
      | true => exact .inr rfl
      | false => exact .inl rfl
    have hvalue := @makeDate_instant t k.hours.val k.minutes.val k.seconds.val k.micros k.offset (by
      unfold instant
      rw [hk])
    have hmicros := k.micros_lt
    rw [hstarts, if_pos rfl, hgood, if_neg Bool.false_ne_true, htime, if_neg (not_not.mpr rfl),
      ← hvalue]
    exact congrArg some (instantOf_fields rt t.astronomical_double t.astronomical_bounds (by omega)
      k.offset_lt hshift)

/-- A text of digits at the beginning is no infinity. -/
theorem startsInfinity_text : startsInfinity (Cells.chars t.text) 0 = false := by
  have hread := t.reads
  have hlong := t.year_long
  have hyear : t.yearDigits.length = t.year.length := List.length_map ..
  have hlt := t.yearDigits_lt
  unfold chars body at hread
  cases hdigits : t.yearDigits with
  | nil =>
    rw [hdigits] at hyear
    rw [← hyear] at hlong
    exact absurd hlong (by decide)
  | cons d ds =>
    rw [hdigits] at hread hlt
    have hd := hlt d List.mem_cons_self
    have hc : Cells.chars t.text 0 = some (48 + d) := (readsAt_cons.mp hread).1
    unfold startsInfinity
    rw [hc, decide_eq_false]
    rintro (h | ⟨h, -⟩)
    · have h := Option.some.inj h
      omega
    · have h := Option.some.inj h
      omega

end IsoText

end Reading

def infinityText (neg : Bool) : Bytes :=
  latin1 (if neg then ascii "-infinity" else ascii "infinity")

/-- **The instant of a text is exact**: wherever it lies, the milliseconds since 1970 of the instant
in the proleptic Gregorian calendar, rounded down; it is `NaN` exactly for the infinities and for
what no `Date` can hold. -/
theorem instantFromBytes_exact (rt : Runtime) (pre post : Bytes) :
    (∀ t : IsoText, ∃ ms,
      instantFromBytes rt.standard (pre ++ t.text ++ post) pre.length t.text.length = some ms ∧
      (Clipped (t.instant / 1000) → ms = .ofInt (t.instant / 1000)) ∧
      (ms.isNaN = true ↔ ¬Clipped (t.instant / 1000))) ∧
    ∀ neg, ∃ ms, instantFromBytes rt.standard (pre ++ infinityText neg ++ post) pre.length
      (infinityText neg).length = some ms ∧ ms.isNaN = true := by
  constructor
  · intro t
    refine ⟨timeClip (t.instant / 1000), ?_, timeClip_of, ?_⟩
    · rw [instantFromBytes_place]
      unfold instantFromBytes
      rw [t.startsInfinity_text, if_neg Bool.false_ne_true, Nat.zero_add, t.instantFrom_text rt]
    · unfold timeClip
      by_cases h : Clipped (t.instant / 1000)
      · rw [if_pos h, Double.isNaN_ofInt (safe_of_clipped h)]
        exact ⟨nofun, fun hnot => absurd h hnot⟩
      · rw [if_neg h]
        exact ⟨fun _ => h, fun _ => by decide⟩
  · intro neg
    refine ⟨Double.nan, ?_, by decide⟩
    rw [instantFromBytes_place]
    cases neg with
    | true => rfl
    | false => rfl

end Minipg.Cells
