import Mathlib.Algebra.BigOperators.Group.List.Basic
import Mathlib.Tactic.IntervalCases
import Minipg.Js.Float

/-!
# Time values

`Date.UTC` and `new Date`: a time value is an integer of milliseconds, and what a `Date` cannot hold
is `NaN`.  The day of a date is the inverse of `civil` (`firstOfMonth_civil`), and four centuries
are the same number of days from wherever they start (`firstOfMonth_add`).  Its days are those of
the proleptic Gregorian calendar (`firstOfMonth_epochDay`).
-/

namespace Minipg.Js

/-- The day of the first of a month; months count from 0, and may lie outside of the year. -/
def firstOfMonth (year month : Int) : Int :=
  let m := month % 12
  let y := year + month / 12 - (if m < 2 then 1 else 0)
  let mp := (m + 10) % 12
  let yoe := y % 400
  y / 400 * 146097 + (365 * yoe + yoe / 4 - yoe / 100 + (153 * mp + 2) / 5) - 719468

/-- `MakeDate` of the fields. -/
def makeDate (year month date hours minutes seconds ms : Int) : Int :=
  (firstOfMonth year month + (date - 1)) * 86400000 + hours * 3600000 + minutes * 60000 +
    seconds * 1000 + ms

/-- What a `Date` can hold. -/
def Clipped (t : Int) : Prop := -8640000000000000 ≤ t ∧ t ≤ 8640000000000000

instance (t : Int) : Decidable (Clipped t) := inferInstanceAs (Decidable (_ ∧ _))

/-- `TimeClip`. -/
def timeClip (t : Int) : Double := if Clipped t then .ofInt t else .nan

/-- `Date.UTC`, where the years from 0 to 99 are those of the twentieth century. -/
def dateUtc (year month date hours minutes seconds ms : Double) : Double :=
  if [year, month, date, hours, minutes, seconds, ms].all Double.isFinite then
    let y := year.trunc
    timeClip (makeDate (if 0 ≤ y ∧ y ≤ 99 then 1900 + y else y) month.trunc date.trunc hours.trunc
      minutes.trunc seconds.trunc ms.trunc)
  else .nan

/-- `new Date(x)`. -/
def newDate (x : Double) : Value :=
  if x.isFinite then
    if h : Clipped x.trunc then .date (some ⟨x.trunc, h⟩) else .date none
  else .date none

/-- The day of the year, from March on. -/
theorem doy_bounds {doe yoe : Int} (h0 : 0 ≤ doe) (h1 : doe < 146097)
    (hy : (doe - doe / 1460 + doe / 36524 - doe / 146096) / 365 = yoe) :
    (0 ≤ yoe ∧ yoe < 400) ∧ 0 ≤ doe - (365 * yoe + yoe / 4 - yoe / 100) ∧
      doe - (365 * yoe + yoe / 4 - yoe / 100) ≤ 366 := by
  have hcentury : yoe / 100 = doe / 36524 ∨ yoe / 100 = 3 ∧ doe / 36524 = 4 := by omega
  have hleap : yoe / 4 ≤ doe / 1460 := by omega
  refine ⟨by omega, ?_, ?_⟩
  · omega
  · omega

theorem civil_bounds {day : Int} (h : -10000000000 < day ∧ day < 10000000000) :
    (-100000000 < (civil day).1 ∧ (civil day).1 < 100000000) ∧
      (1 ≤ (civil day).2.1 ∧ (civil day).2.1 ≤ 12) ∧
        1 ≤ (civil day).2.2 ∧ (civil day).2.2 ≤ 31 := by
  unfold civil
  dsimp only
  have hera : -70000 < (day + 719468) / 146097 ∧ (day + 719468) / 146097 < 70000 := by omega
  have hdoe : 0 ≤ (day + 719468) % 146097 ∧ (day + 719468) % 146097 < 146097 := by omega
  generalize (day + 719468) / 146097 = era at hera ⊢
  generalize (day + 719468) % 146097 = doe at hdoe ⊢
  generalize hyoe : (doe - doe / 1460 + doe / 36524 - doe / 146096) / 365 = yoe
  obtain ⟨hyear, hdoy⟩ := doy_bounds hdoe.1 hdoe.2 hyoe
  generalize doe - (365 * yoe + yoe / 4 - yoe / 100) = doy at hdoy ⊢
  clear hyoe
  have hmp : 0 ≤ (5 * doy + 2) / 153 ∧ (5 * doy + 2) / 153 ≤ 11 := by omega
  refine ⟨?_, ?_, ?_⟩
  · split <;> omega
  · split <;> omega
  · omega

theorem firstOfMonth_civil (day : Int) :
    firstOfMonth (civil day).1 ((civil day).2.1 - 1) + ((civil day).2.2 - 1) = day := by
  unfold firstOfMonth civil
  dsimp only
  have hsplit : day = (day + 719468) / 146097 * 146097 + (day + 719468) % 146097 - 719468 := by
    omega
  have hdoe : 0 ≤ (day + 719468) % 146097 ∧ (day + 719468) % 146097 < 146097 := by omega
  generalize (day + 719468) / 146097 = era at hsplit ⊢
  generalize (day + 719468) % 146097 = doe at hsplit hdoe ⊢
  generalize hyoe : (doe - doe / 1460 + doe / 36524 - doe / 146096) / 365 = yoe
  obtain ⟨hyear, hdoy⟩ := doy_bounds hdoe.1 hdoe.2 hyoe
  clear hyoe
  have hmp : 0 ≤ (5 * (doe - (365 * yoe + yoe / 4 - yoe / 100)) + 2) / 153 ∧
      (5 * (doe - (365 * yoe + yoe / 4 - yoe / 100)) + 2) / 153 ≤ 11 := by
    omega
  generalize (5 * (doe - (365 * yoe + yoe / 4 - yoe / 100)) + 2) / 153 = mp at hmp ⊢
  have hera : (yoe + era * 400) / 400 = era ∧ (yoe + era * 400) % 400 = yoe := by omega
  by_cases hm : mp < 10
  · have hmonth : (mp + 3 - 1) % 12 = mp + 2 ∧ (mp + 3 - 1) / 12 = 0 ∧
        (mp + 2 + 10) % 12 = mp := by
      omega
    rw [if_pos hm, hmonth.1, hmonth.2.1, hmonth.2.2, if_neg (by omega), if_neg (by omega),
      Int.add_zero, Int.add_zero, Int.sub_zero, hera.1, hera.2]
    omega
  · have hmonth : (mp - 9 - 1) % 12 = mp - 10 ∧ (mp - 9 - 1) / 12 = 0 ∧
        (mp - 10 + 10) % 12 = mp := by
      omega
    rw [if_neg hm, hmonth.1, hmonth.2.1, hmonth.2.2, if_pos (by omega), if_pos (by omega),
      Int.add_zero, Int.add_sub_cancel, hera.1, hera.2]
    omega

theorem firstOfMonth_add (year month : Int) :
    firstOfMonth (year + 400) month = firstOfMonth year month + 146097 := by
  unfold firstOfMonth
  dsimp only
  omega

theorem timeClip_of {t : Int} (h : Clipped t) : timeClip t = .ofInt t := if_pos h

theorem safe_of_clipped {t : Int} (h : Clipped t) : Double.Safe t := by
  unfold Clipped at h
  unfold Double.Safe
  omega

/-- A time value is itself. -/
theorem newDate_ofInt (t : Time) : newDate (.ofInt t.ms) = .date (some t) := by
  have hsafe := safe_of_clipped t.clipped
  have htrunc : (Double.ofInt t.ms).trunc = t.ms := Double.trunc_ofInt hsafe
  have hclip : Clipped (Double.ofInt t.ms).trunc := by
    rw [htrunc]
    exact t.clipped
  have htime : (⟨(Double.ofInt t.ms).trunc, hclip⟩ : Time) = t := by
    cases t
    simp only [htrunc]
  unfold newDate
  rw [if_pos (Double.isFinite_ofInt hsafe), dif_pos hclip, htime]

/-- `Date.UTC` of integers. -/
theorem dateUtc_ofInt {y mo d h mi s ms : Int}
    (hsafe : ∀ n ∈ [y, mo, d, h, mi, s, ms], Double.Safe n) (hy : y < 0 ∨ 99 < y) :
    dateUtc (.ofInt y) (.ofInt mo) (.ofInt d) (.ofInt h) (.ofInt mi) (.ofInt s) (.ofInt ms) =
      timeClip (makeDate y mo d h mi s ms) := by
  have hfin : [Double.ofInt y, .ofInt mo, .ofInt d, .ofInt h, .ofInt mi, .ofInt s, .ofInt ms].all
      Double.isFinite = true := by
    refine List.all_eq_true.mpr ?_
    intro x hx
    have hmap : x ∈ [y, mo, d, h, mi, s, ms].map Double.ofInt := hx
    obtain ⟨n, hn, rfl⟩ := List.mem_map.mp hmap
    exact Double.isFinite_ofInt (hsafe n hn)
  have htrunc : ∀ n ∈ [y, mo, d, h, mi, s, ms], (Double.ofInt n).trunc = n := fun n hn =>
    Double.trunc_ofInt (hsafe n hn)
  have hyear : ¬(0 ≤ y ∧ y ≤ 99) := by omega
  unfold dateUtc
  rw [if_pos hfin]
  simp only [htrunc y (by simp), htrunc mo (by simp), htrunc d (by simp), htrunc h (by simp),
    htrunc mi (by simp), htrunc s (by simp), htrunc ms (by simp), if_neg hyear]

/-- Four centuries are 146097 days. -/
theorem makeDate_add (y mo d h mi s ms : Int) :
    makeDate (y + 400) mo d h mi s ms = makeDate y mo d h mi s ms + 12622780800000 := by
  unfold makeDate
  rw [firstOfMonth_add]
  omega

/-! ### The calendar -/

/-- Every fourth year, but of the centuries only every fourth. -/
def isLeap (year : Int) : Bool := year % 4 = 0 ∧ (year % 100 ≠ 0 ∨ year % 400 = 0)

/-- The days of a month; months count from 0. -/
def daysIn (year : Int) (month : Nat) : Int :=
  if month = 1 then if isLeap year then 29 else 28
  else if month = 3 ∨ month = 5 ∨ month = 8 ∨ month = 10 then 30
  else 31

/-- The days from 1970-01-01 to the first of January. -/
def newYear (year : Int) : Int :=
  365 * (year - 1970) + ((year - 1) / 4 - (year - 1) / 100 + (year - 1) / 400 - 477)

/-- The days from 1970-01-01 to a date of the proleptic Gregorian calendar. -/
def epochDay (year : Int) (month : Nat) (day : Int) : Int :=
  newYear year + ((List.range month).map (daysIn year)).sum + (day - 1)

theorem firstOfMonth_newYear (year : Int) : firstOfMonth year 0 = newYear year := by
  unfold firstOfMonth newYear
  simp only [Int.zero_emod, Int.zero_ediv]
  omega

/-- Leap days are those of the calendar. -/
theorem firstOfMonth_next (year : Int) {month : Nat} (h : month < 12) :
    firstOfMonth year (month + 1) = firstOfMonth year month + daysIn year month := by
  by_cases hleap : isLeap year = true
  · have hl := of_decide_eq_true hleap
    interval_cases month
    all_goals
      simp only [firstOfMonth, daysIn, hleap]
      simp
      omega
  · have hl := of_decide_eq_false (Bool.not_eq_true _ ▸ hleap)
    interval_cases month
    all_goals
      simp only [firstOfMonth, daysIn, hleap]
      simp
      omega

theorem firstOfMonth_epochDay (year : Int) (day : Int) : ∀ {month : Nat}, month ≤ 12 →
    firstOfMonth year month + (day - 1) = epochDay year month day
  | 0, _ => by
    rw [show ((0 : Nat) : Int) = 0 from rfl, firstOfMonth_newYear]
    simp [epochDay]
  | month + 1, h => by
    have hnext := firstOfMonth_next year (show month < 12 by omega)
    have ih := firstOfMonth_epochDay year day (show month ≤ 12 by omega)
    unfold epochDay at ih ⊢
    rw [List.range_succ, List.map_append, List.sum_append, Nat.cast_succ, hnext]
    simp
    omega

end Minipg.Js
