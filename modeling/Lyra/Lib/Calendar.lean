import Mathlib.Order.Monotone.Basic
import Mathlib.Algebra.Order.Ring.Int
import Mathlib.Order.SuccPred.LinearLocallyFinite
import Mathlib.Order.SuccPred.IntervalSucc
import Mathlib.Data.Int.ConditionallyCompleteOrder

/-!
# The Gregorian calendar

Days are numbered from 1970-01-01 and months from January of the year 0, in both directions.

* `monthStart_succ`, `monthLength_bounds`: months follow each other, of 28 to 31 days;
* `monthOf_eq`: the month of a day is the one in which it lies;
* `dayOfMonth_makeDay`: a day that a month has is found again by its number.
-/

namespace Lyra.Lib

/-! ## Years and months -/

/-- The first day of a year. -/
def yearStart (y : Int) : Int :=
  365 * (y - 1970) + (y - 1969) / 4 - (y - 1901) / 100 + (y - 1601) / 400

def isLeap (y : Int) : Bool := y % 4 == 0 && (y % 100 != 0 || y % 400 == 0)

/-- The days of a year before a month, February having 28. -/
def monthOffset (k : Int) : Int :=
  if k = 0 then 0 else if k = 1 then 31 else if k = 2 then 59 else if k = 3 then 90
  else if k = 4 then 120 else if k = 5 then 151 else if k = 6 then 181 else if k = 7 then 212
  else if k = 8 then 243 else if k = 9 then 273 else if k = 10 then 304 else 334

/-- The first day of a month. -/
def monthStart (m : Int) : Int :=
  yearStart (m / 12) + monthOffset (m % 12) + if 2 ≤ m % 12 ∧ isLeap (m / 12) then 1 else 0

def monthLength (m : Int) : Int := monthStart (m + 1) - monthStart m

theorem isLeap_iff (y : Int) :
    isLeap y = true ↔ y % 4 = 0 ∧ (y % 100 ≠ 0 ∨ y % 400 = 0) := by
  unfold isLeap
  simp

theorem yearStart_succ (y : Int) :
    yearStart (y + 1) = yearStart y + if isLeap y then 366 else 365 := by
  unfold yearStart
  have hleap := isLeap_iff y
  split
  · rename_i h
    have h' := hleap.mp h
    omega
  · rename_i h
    rw [hleap] at h
    omega

theorem monthStart_of (y k : Int) (h0 : 0 ≤ k) (h12 : k < 12) :
    monthStart (12 * y + k) =
      yearStart y + monthOffset k + if 2 ≤ k ∧ isLeap y then 1 else 0 := by
  have hdiv : (12 * y + k) / 12 = y := by omega
  have hmod : (12 * y + k) % 12 = k := by omega
  unfold monthStart
  rw [hdiv, hmod]

theorem monthLength_bounds (m : Int) : 28 ≤ monthLength m ∧ monthLength m ≤ 31 := by
  obtain ⟨y, k, rfl, h0, h12⟩ : ∃ y k : Int, m = 12 * y + k ∧ 0 ≤ k ∧ k < 12 :=
    ⟨m / 12, m % 12, by omega, by omega, by omega⟩
  unfold monthLength
  rw [monthStart_of y k h0 h12]
  obtain hlast | hlast : k = 11 ∨ k < 11 := by omega
  · subst hlast
    -- December is followed by January of the next year
    have hnext : 12 * y + 11 + 1 = 12 * (y + 1) + 0 := by omega
    rw [hnext, monthStart_of (y + 1) 0 (by omega) (by omega), yearStart_succ]
    cases isLeap y
    · simp [monthOffset]
    · simp [monthOffset]
      omega
  · have hnext : 12 * y + k + 1 = 12 * y + (k + 1) := by omega
    rw [hnext, monthStart_of y (k + 1) (by omega) (by omega)]
    obtain rfl | rfl | rfl | rfl | rfl | rfl | rfl | rfl | rfl | rfl | rfl :
        k = 0 ∨ k = 1 ∨ k = 2 ∨ k = 3 ∨ k = 4 ∨ k = 5 ∨ k = 6 ∨ k = 7 ∨ k = 8 ∨ k = 9 ∨ k = 10 := by
      omega
    all_goals cases isLeap y <;> simp [monthOffset] <;> omega

theorem monthStart_succ (m : Int) : monthStart (m + 1) = monthStart m + monthLength m := by
  unfold monthLength
  omega

theorem monthStart_strictMono : StrictMono monthStart := by
  apply strictMono_int_of_lt_succ
  intro m
  have hlen := (monthLength_bounds m).1
  have hsucc := monthStart_succ m
  omega

/-! ## The month of a day -/

/-- Months begin within six days of where months of equal length would. -/
theorem monthStart_near (m : Int) :
    146097 * m - 6 * 4800 ≤ 4800 * (monthStart m + 719528) ∧
      4800 * (monthStart m + 719528) ≤ 146097 * m + 6 * 4800 := by
  obtain ⟨y, k, rfl, h0, h12⟩ : ∃ y k : Int, m = 12 * y + k ∧ 0 ≤ k ∧ k < 12 :=
    ⟨m / 12, m % 12, by omega, by omega, by omega⟩
  rw [monthStart_of y k h0 h12]
  have hoff : 30 * k - 2 ≤ monthOffset k ∧ monthOffset k ≤ 30 * k + 4 ∧
      4800 * monthOffset k ≤ 146096 * k + 4800 ∧ 146096 * k - 2 * 4800 ≤ 4800 * monthOffset k := by
    obtain rfl | rfl | rfl | rfl | rfl | rfl | rfl | rfl | rfl | rfl | rfl | rfl :
        k = 0 ∨ k = 1 ∨ k = 2 ∨ k = 3 ∨ k = 4 ∨ k = 5 ∨ k = 6 ∨ k = 7 ∨ k = 8 ∨ k = 9 ∨ k = 10
          ∨ k = 11 := by
      omega
    all_goals simp [monthOffset]
  have hyear : 146097 * y - 3 * 400 ≤ 400 * (yearStart y + 719528) ∧
      400 * (yearStart y + 719528) ≤ 146097 * y + 3 * 400 := by
    unfold yearStart
    omega
  split <;> omega

/-- The month in which a day lies: the one that months of equal length would give, or one of
its neighbours. -/
def monthOf (day : Int) : Int :=
  let m := 4800 * (day + 719528) / 146097
  if day < monthStart m then m - 1 else if monthStart (m + 1) ≤ day then m + 1 else m

theorem monthOf_spec (day : Int) :
    monthStart (monthOf day) ≤ day ∧ day < monthStart (monthOf day + 1) := by
  unfold monthOf
  simp only []
  generalize hm : 4800 * (day + 719528) / 146097 = m
  have hbefore := monthStart_near (m - 1)
  have hafter := monthStart_near (m + 2)
  split
  · have hnext : m - 1 + 1 = m := by omega
    rw [hnext]
    omega
  split
  · have hnext : m + 1 + 1 = m + 2 := by omega
    rw [hnext]
    omega
  · omega

theorem monthOf_eq (day m : Int) : monthOf day = m ↔ monthStart m ≤ day ∧ day < monthStart (m + 1) := by
  have hspec := monthOf_spec day
  constructor
  · rintro rfl
    exact hspec
  · rintro ⟨hle, hlt⟩
    have h1 : monthOf day < m + 1 := monthStart_strictMono.lt_iff_lt.mp (lt_of_le_of_lt hspec.1 hlt)
    have h2 : m < monthOf day + 1 := monthStart_strictMono.lt_iff_lt.mp (lt_of_le_of_lt hle hspec.2)
    omega

theorem monthOf_mono : Monotone monthOf := by
  intro d d' hle
  have h1 := (monthOf_spec d).1
  have h2 := (monthOf_spec d').2
  have hlt : monthOf d < monthOf d' + 1 :=
    monthStart_strictMono.lt_iff_lt.mp (lt_of_le_of_lt (le_trans h1 hle) h2)
  omega

def yearOf (day : Int) : Int := monthOf day / 12

theorem yearOf_mono : Monotone yearOf := by
  intro d d' hle
  have hmonth := monthOf_mono hle
  unfold yearOf
  omega

/-- The number of a day in its month, from 1. -/
def dayOfMonth (day : Int) : Int := day - monthStart (monthOf day) + 1

theorem dayOfMonth_pos (day : Int) : 1 ≤ dayOfMonth day := by
  have hspec := (monthOf_spec day).1
  unfold dayOfMonth
  omega

theorem dayOfMonth_le (day : Int) : dayOfMonth day ≤ monthLength (monthOf day) := by
  have hspec := (monthOf_spec day).2
  unfold dayOfMonth monthLength
  omega

/-! ## Days by their number -/

/-- The day that is the `date`th of a month, counted on beyond the month's own days. -/
def makeDay (month date : Int) : Int := monthStart month + date - 1

theorem makeDay_monthOf (day : Int) : makeDay (monthOf day) (dayOfMonth day) = day := by
  unfold makeDay dayOfMonth
  omega

theorem makeDay_add (month date n : Int) : makeDay month (date + n) = makeDay month date + n := by
  unfold makeDay
  omega

theorem makeDay_strictMono (date : Int) : StrictMono (makeDay · date) := by
  intro m m' hlt
  have hstart := monthStart_strictMono hlt
  show makeDay m date < makeDay m' date
  unfold makeDay
  omega

theorem monthOf_makeDay {month date : Int} (h1 : 1 ≤ date) (hlen : date ≤ monthLength month) :
    monthOf (makeDay month date) = month := by
  rw [monthOf_eq]
  have hsucc := monthStart_succ month
  unfold makeDay
  omega

theorem dayOfMonth_makeDay {month date : Int} (h1 : 1 ≤ date) (hlen : date ≤ monthLength month) :
    dayOfMonth (makeDay month date) = date := by
  unfold dayOfMonth
  rw [monthOf_makeDay h1 hlen]
  unfold makeDay
  omega

example : makeDay (12 * 2026 + 1) 29 = makeDay (12 * 2026 + 2) 1 := by decide

end Lyra.Lib
