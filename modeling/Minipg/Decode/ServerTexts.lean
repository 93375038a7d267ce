import Mathlib.Data.List.DropRight
import Minipg.Decode.Timestamps

/-!
# Texts of the values of the server

`timestamp` and `timestamptz` are microseconds and `date` is days since 2000-01-01, and the largest
and the smallest number are the infinities.  A text of a value is any ISO text of its instant
(`InstantText`); every value has one, with the digits and the era as the server writes them
(`timestamp_hasText`, `date_hasText`).
-/

namespace Minipg.Cells

open Js

/-- `text` stands for `v`, whose instant is so many microseconds after 1970 unless it is one of the
bounds. -/
inductive InstantText (lo hi : Int) (instant : Int → Int) : Int → Bytes → Prop
  | infinity : InstantText lo hi instant hi (infinityText false)
  | minusInfinity : InstantText lo hi instant lo (infinityText true)
  | finite {v : Int} {t : IsoText} (h : t.instant = instant v) (hlo : lo < v) (hhi : v < hi) :
      InstantText lo hi instant v t.text

def microsOf (us : Int) : Int := us + pgEpochMs * 1000

def microsOfDay (days : Int) : Int := (days * 86400000 + pgEpochMs) * 1000

abbrev TimestampText : Int → Bytes → Prop :=
  InstantText (-9223372036854775808) 9223372036854775807 microsOf

abbrev DateText : Int → Bytes → Prop := InstantText (-2147483648) 2147483647 microsOfDay

/-! ### Digits -/

/-- The last `width` digits of a number. -/
def lastDigits : Nat → Nat → List (Fin 10)
  | 0, _ => []
  | width + 1, n => lastDigits width (n / 10) ++ [Fin.ofNat 10 n]

theorem lastDigits_length : ∀ width n, (lastDigits width n).length = width
  | 0, _ => rfl
  | width + 1, n => by
    rw [lastDigits, List.length_append, lastDigits_length width]
    rfl

theorem lastDigits_value : ∀ (width : Nat) {n : Nat}, n < 10 ^ width →
    readDecimal 0 ((lastDigits width n).map Fin.val) = n
  | 0, n, h => by
    obtain rfl : n = 0 := by omega
    rfl
  | width + 1, n, h => by
    have ih := lastDigits_value width (n := n / 10) (by omega)
    rw [lastDigits, List.map_append, readDecimal_append, ih]
    show n / 10 * 10 + n % 10 = n
    omega

/-- At least four digits. -/
def yearDigits (n : Nat) : List (Fin 10) := lastDigits (max 4 (Nat.log 10 n + 1)) n

theorem yearDigits_length (n : Nat) : 4 ≤ (yearDigits n).length := by
  unfold yearDigits
  rw [lastDigits_length]
  exact Nat.le_max_left ..

theorem yearDigits_value (n : Nat) : readDecimal 0 ((yearDigits n).map Fin.val) = n := by
  have hlog : n < 10 ^ (Nat.log 10 n + 1) := Nat.lt_pow_succ_log_self (by decide) n
  exact lastDigits_value _ (lt_of_lt_of_le hlog
    (Nat.pow_le_pow_right (by decide) (Nat.le_max_right ..)))

/-- Six digits without the zeros at their end. -/
def microDigits (n : Nat) : List (Fin 10) := (lastDigits 6 n).rdropWhile (· = 0)

theorem microDigits_append (n : Nat) :
    microDigits n ++ List.replicate (6 - (microDigits n).length) 0 = lastDigits 6 n := by
  obtain ⟨k, hk⟩ : ∃ k, microDigits n ++ List.replicate k 0 = lastDigits 6 n := by
    refine ⟨((lastDigits 6 n).rtakeWhile (· = 0)).length, ?_⟩
    have hzeros : (lastDigits 6 n).rtakeWhile (· = 0) =
        List.replicate ((lastDigits 6 n).rtakeWhile (· = 0)).length 0 := by
      refine List.eq_replicate_of_mem fun d hd => ?_
      have hd0 := List.mem_rtakeWhile_imp hd
      exact of_decide_eq_true hd0
    rw [← hzeros]
    exact List.rdropWhile_append_rtakeWhile ..
  have hlen := congrArg List.length hk
  rw [List.length_append, List.length_replicate, lastDigits_length] at hlen
  rw [← hk, show 6 - (microDigits n).length = k by omega]

theorem microDigits_length (n : Nat) : (microDigits n).length ≤ 6 := by
  have hlen := congrArg List.length (microDigits_append n)
  rw [List.length_append, List.length_replicate, lastDigits_length] at hlen
  omega

/-! ### Dates -/

/-- The year in its era; the year 0 is 1 BC. -/
def eraYear (year : Int) : Nat := if 0 < year then year.toNat else (1 - year).toNat

/-- The date of a day since 1970-01-01. -/
def dayText (day : Int) (h : -10000000000 < day ∧ day < 10000000000) (clock : Option Clock) :
    IsoText where
  year := yearDigits (eraYear (civil day).1)
  year_long := yearDigits_length _
  year_le := by
    have hyear := (civil_bounds h).1
    rw [yearDigits_value]
    unfold eraYear
    split <;> omega
  bc := decide ((civil day).1 ≤ 0)
  month := ⟨(civil day).2.1.toNat, by have := civil_bounds h; omega⟩
  month_bounds := by
    have hmonth := (civil_bounds h).2.1
    dsimp only
    omega
  day := ⟨(civil day).2.2.toNat, by have := civil_bounds h; omega⟩
  clock := clock

/-- The microseconds of the day. -/
def Clock.instant (k : Clock) : Int :=
  (k.hours.val * 3600 + k.minutes.val * 60 + k.seconds.val - k.offset) * 1000000 + k.micros

theorem dayText_astronomical (day : Int) (h : -10000000000 < day ∧ day < 10000000000)
    (clock : Option Clock) : (dayText day h clock).astronomical = (civil day).1 := by
  have hvalue : readDecimal 0 (dayText day h clock).yearDigits = eraYear (civil day).1 :=
    yearDigits_value _
  unfold IsoText.astronomical
  rw [hvalue]
  by_cases hbc : (civil day).1 ≤ 0
  · have hera : (dayText day h clock).bc = true := decide_eq_true hbc
    rw [if_pos hera]
    unfold eraYear
    rw [if_neg (by omega)]
    omega
  · have hera : (dayText day h clock).bc = false := decide_eq_false hbc
    rw [hera, if_neg Bool.false_ne_true]
    unfold eraYear
    rw [if_pos (by omega)]
    omega

theorem dayText_instant (day : Int) (h : -10000000000 < day ∧ day < 10000000000)
    (clock : Option Clock) : (dayText day h clock).instant =
      day * 86400000000 + ((clock.map Clock.instant).getD 0) := by
  obtain ⟨-, hmonth, hday⟩ := civil_bounds h
  have hepoch : epochDay (civil day).1 ((civil day).2.1.toNat - 1) (civil day).2.2.toNat = day := by
    rw [← firstOfMonth_epochDay _ _ (by omega)]
    have hfirst := firstOfMonth_civil day
    have hcast : (((civil day).2.1.toNat - 1 : Nat) : Int) = (civil day).2.1 - 1 := by omega
    have hcast' : ((civil day).2.2.toNat : Int) = (civil day).2.2 := by omega
    rw [hcast, hcast']
    exact hfirst
  unfold IsoText.instant
  rw [dayText_astronomical]
  have hsame : epochDay (civil day).1 ((dayText day h clock).month.val - 1)
      (dayText day h clock).day.val = day := hepoch
  rw [hsame]
  cases clock with
  | none => rfl
  | some k => rfl

/-- The time of a microsecond of the day. -/
def clockOf (us : Nat) (h : us < 86400000000) : Clock where
  t := false
  hours := ⟨us / 3600000000, by omega⟩
  minutes := ⟨us / 60000000 % 60, by omega⟩
  seconds := ⟨us / 1000000 % 60, by omega⟩
  fraction := microDigits (us % 1000000)
  fraction_le := microDigits_length _
  zone := none

theorem clockOf_micros (us : Nat) (h : us < 86400000000) :
    (clockOf us h).micros = us % 1000000 := by
  have hdigits : (clockOf us h).fractionDigits ++
      List.replicate (6 - (clockOf us h).fraction.length) 0 =
        (lastDigits 6 (us % 1000000)).map Fin.val := by
    rw [← microDigits_append, List.map_append, List.map_replicate]
    rfl
  unfold Clock.micros
  rw [hdigits]
  exact lastDigits_value 6 (by omega)

theorem clockOf_instant (us : Nat) (h : us < 86400000000) : (clockOf us h).instant = us := by
  have hoffset : (clockOf us h).offset = 0 := rfl
  unfold Clock.instant
  rw [clockOf_micros, hoffset]
  show (((us / 3600000000 : Nat) : Int) * 3600 + ((us / 60000000 % 60 : Nat) : Int) * 60 +
    ((us / 1000000 % 60 : Nat) : Int) - 0) * 1000000 + ((us % 1000000 : Nat) : Int) = us
  omega

/-! ### Values -/

theorem timestamp_hasText {us : Int} (h : -9223372036854775808 ≤ us ∧ us ≤ 9223372036854775807) :
    ∃ text, TimestampText us text := by
  rcases eq_or_lt_of_le h.1 with rfl | hlo
  · exact ⟨_, .minusInfinity⟩
  rcases eq_or_lt_of_le h.2 with rfl | hhi
  · exact ⟨_, .infinity⟩
  refine ⟨_, .finite (t := dayText (us / 86400000000 + 10957) (by omega)
    (some (clockOf (us % 86400000000).toNat (by omega)))) ?_ hlo hhi⟩
  rw [dayText_instant, Option.map_some, Option.getD_some, clockOf_instant]
  unfold microsOf pgEpochMs
  omega

theorem date_hasText {days : Int} (h : -2147483648 ≤ days ∧ days ≤ 2147483647) :
    ∃ text, DateText days text := by
  rcases eq_or_lt_of_le h.1 with rfl | hlo
  · exact ⟨_, .minusInfinity⟩
  rcases eq_or_lt_of_le h.2 with rfl | hhi
  · exact ⟨_, .infinity⟩
  refine ⟨_, .finite (t := dayText (days + 10957) (by omega) none) ?_ hlo hhi⟩
  rw [dayText_instant, Option.map_none, Option.getD_none]
  unfold microsOfDay pgEpochMs
  omega

end Minipg.Cells
