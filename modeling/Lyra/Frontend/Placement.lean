import Lyra.Frontend.Recurrence

/-!
# Placement on the calendar

`calendar-grid.ts` decides in three ways on which local days an event is shown: by its dates or
by 24 hours from midnight (`eventOccursOnDay`), by the interval up to the next midnight
(`eventOverlapsLocalDay`), and as the days from its start to its end (`eventSpanDays`).

The zone is one whose days begin at 00:00; they may have more or less than 24 hours.  `new Date`
takes the years 0 to 99 for those of the last century.

* `overlaps_iff`, `spans_iff`, `occurs_timed_iff`, `occurs_allDay_iff`: the days each of them gives;
* `placed_iff`: the events on which they agree.
-/

namespace Lyra.CalendarGrid

open Lyra.Lib
open Lyra.Recurrence (Zone msPerDay)

/-! ## Dates -/

def msPerHour : Int := 3600000

/-- The year that `new Date` takes for a number. -/
def fullYear (year : Int) : Int := if 0 ≤ year ∧ year ≤ 99 then 1900 + year else year

/-- The day that `new Date` makes of the year, the month and the date of a day. -/
def taken (day : Int) : Int :=
  makeDay (12 * fullYear (yearOf day) + monthOf day % 12) (dayOfMonth day)

def dayKey (day : Int) : Int := yearOf day * 10000 + (monthOf day % 12 + 1) * 100 + dayOfMonth day

section Grid

variable (z : Zone)

/-- `new Date(year, month, date)`. -/
def newDate (year month date : Int) : Int :=
  z.instant (makeDay (12 * fullYear year + month) date) 0

def atLocalMidnight (d : Int) : Int := newDate z (z.getFullYear d) (z.getMonth d) (z.getDate d)

def dayKeyLocal (d : Int) : Int :=
  z.getFullYear d * 10000 + (z.getMonth d + 1) * 100 + z.getDate d

def dayKeyUtc (d : Int) : Int := dayKey (d / msPerDay)

def sameLocalDay (a b : Int) : Bool :=
  z.getFullYear a == z.getFullYear b && z.getMonth a == z.getMonth b && z.getDate a == z.getDate b

/-! ## Events -/

/-- The start and the end are the instants their texts name; one that names none is absent. -/
structure EventTimeFields where
  dtstart : Option Int
  dtend : Option Int
  isAllDay : Bool
  deriving DecidableEq, Repr

def eventOccursOnDay (event : EventTimeFields) (day : Int) : Bool :=
  match event.dtstart with
  | none => false
  | some start =>
    if event.isAllDay then
      let startKey := dayKeyUtc start
      let endKey := match event.dtend with
        | some stop => dayKeyUtc stop
        | none => startKey + 1
      let key := dayKeyLocal z day
      decide (startKey ≤ key) && decide (key < endKey)
    else
      let endMs := event.dtend.getD (start + msPerHour)
      let dayStart := atLocalMidnight z day
      let dayEnd := dayStart + msPerDay
      decide (start < dayEnd) && decide (dayStart < endMs)

/-- The loop from the first to the last day. -/
def spanLoop : Nat → Int → Int → Option (List Int)
  | 0, cur, endDay => if cur ≤ endDay then none else some []
  | rounds + 1, cur, endDay =>
    if cur ≤ endDay then
      (spanLoop rounds (z.setDate cur (z.getDate cur + 1)) endDay).map (cur :: ·)
    else some []

def eventSpanDays (rounds : Nat) (event : EventTimeFields) : Option (List Int) :=
  match event.dtstart, event.dtend with
  | none, _ => some []
  | some start, none => some [atLocalMidnight z start]
  | some start, some stop =>
    let startDay := atLocalMidnight z start
    let endDay := atLocalMidnight z stop
    let endDay :=
      if event.isAllDay && decide (startDay < endDay) then z.setDate endDay (z.getDate endDay - 1)
      else endDay
    spanLoop z rounds startDay endDay

def eventOverlapsLocalDay (event : EventTimeFields) (day : Int) : Bool :=
  match event.dtstart with
  | none => false
  | some start =>
    let dayStart := atLocalMidnight z day
    let dayEnd := z.setDate dayStart (z.getDate dayStart + 1)
    let evStart := if event.isAllDay then atLocalMidnight z start else start
    let evEnd := match event.dtend with
      | none => evStart + msPerHour
      | some stop => if event.isAllDay then atLocalMidnight z stop else stop
    decide (evStart < dayEnd) && decide (dayStart < evEnd)

/-! ## Agreement -/

/-- The three agree on every day, and the days are consecutive ones from the start's on. -/
structure Agrees (event : EventTimeFields) (start : Int) (days : List Int) : Prop where
  overlaps : ∀ day, eventOverlapsLocalDay z event day = eventOccursOnDay z event day
  spans : ∀ day, (days.any fun d => sameLocalDay z d day) = eventOccursOnDay z event day
  interval : ∃ k : Nat, days.map z.day =
    (List.range (k + 1)).map fun i : Nat => z.day start + (i : Int)

def Placed (event : EventTimeFields) : Prop :=
  ∃ start days, event.dtstart = some start ∧
    (∃ rounds, eventSpanDays z rounds event = some days) ∧ Agrees z event start days

/-- Local days follow each other, and each begins at 00:00. -/
structure Daily : Prop where
  first : ∀ day t, z.instant day 0 ≤ t ↔ day ≤ z.day t
  midnight : ∀ day, z.toLocal (z.instant day 0) = day * msPerDay

/-- The last day that the end of the event reaches into. -/
def lastReached (event : EventTimeFields) (start first : Int) : Int :=
  match event.dtend with
  | none => z.day ((if event.isAllDay then z.instant first 0 else start) + msPerHour - 1)
  | some stop => if event.isAllDay then taken (z.day stop) - 1 else z.day (stop - 1)

/-- The last day by the date of the end, which is the next one for events of whole days. -/
def lastNamed (event : EventTimeFields) (first : Int) : Int :=
  match event.dtend with
  | none => first
  | some stop =>
    if event.isAllDay ∧ first < taken (z.day stop) then taken (z.day stop) - 1
    else taken (z.day stop)

/-- The start lies within 24 hours from the midnight of its own day and of no earlier one. -/
def FullDays (start : Int) : Prop :=
  start < z.instant (z.day start) 0 + msPerDay ∧
    ∀ day, taken day < z.day start → z.instant (taken day) 0 + msPerDay ≤ start

/-- The dates of an event of whole days are the same in UTC. -/
def SameDates (event : EventTimeFields) (first start : Int) : Prop :=
  start / msPerDay = first ∧
    ∀ stop, event.dtend = some stop → stop / msPerDay = lastNamed z event first + 1

/-- The days from the start to the end, by the date and by the time of the end, are the same. -/
structure Fits (event : EventTimeFields) (start : Int) : Prop where
  year : taken (z.day start) = z.day start
  ordered : z.day start ≤ lastNamed z event (z.day start)
  days : ∀ day, z.day start ≤ taken day ∧ taken day ≤ lastReached z event start (z.day start) ↔
    z.day start ≤ day ∧ day ≤ lastNamed z event (z.day start)
  clock : if event.isAllDay then SameDates z event (z.day start) start else FullDays z start

end Grid

/-! ## Days by their keys -/

theorem taken_of_year {day : Int} (h : ¬(0 ≤ yearOf day ∧ yearOf day ≤ 99)) : taken day = day := by
  have hmonth : 12 * yearOf day + monthOf day % 12 = monthOf day := by
    unfold yearOf
    omega
  unfold taken fullYear
  rw [if_neg h, hmonth, makeDay_monthOf]

theorem taken_eq {day : Int} (h : 0 ≤ yearOf day ∧ yearOf day ≤ 99) :
    taken day = makeDay (monthOf day + 22800) (dayOfMonth day) := by
  have hmonth : 12 * fullYear (yearOf day) + monthOf day % 12 = monthOf day + 22800 := by
    unfold fullYear
    rw [if_pos h]
    unfold yearOf
    omega
  unfold taken
  rw [hmonth]

/-- A year of two digits is taken for one of the last century. -/
theorem taken_of_two_digits {day : Int} (h : 0 ≤ yearOf day ∧ yearOf day ≤ 99) :
    day < taken day ∧ 1900 ≤ yearOf (taken day) := by
  have htaken := taken_eq h
  have hpos := dayOfMonth_pos day
  constructor
  · have hlt : makeDay (monthOf day) (dayOfMonth day) <
        makeDay (monthOf day + 22800) (dayOfMonth day) :=
      makeDay_strictMono _ (by omega)
    rwa [makeDay_monthOf, ← htaken] at hlt
  · have hmono : monthOf (makeDay (monthOf day + 22800) 1) ≤ monthOf (taken day) := by
      apply monthOf_mono
      rw [htaken]
      unfold makeDay
      omega
    have hone : monthOf (makeDay (monthOf day + 22800) 1) = monthOf day + 22800 :=
      monthOf_makeDay (by omega) (by have := monthLength_bounds (monthOf day + 22800); omega)
    rw [hone] at hmono
    unfold yearOf at h ⊢
    omega

theorem monthLength_december (year : Int) : monthLength (12 * year + 11) = 31 := by
  have hnext : 12 * year + 11 + 1 = 12 * (year + 1) + 0 := by omega
  have hsucc := yearStart_succ year
  unfold monthLength
  rw [hnext, monthStart_of (year + 1) 0 (by omega) (by omega),
    monthStart_of year 11 (by omega) (by omega)]
  cases hleap : isLeap year <;> simp [hleap, monthOffset] at hsucc ⊢ <;> omega

theorem yearOf_taken_le {day : Int} (h : 0 ≤ yearOf day ∧ yearOf day ≤ 99) :
    yearOf (taken day) ≤ 1999 := by
  have hdate := dayOfMonth_le day
  have hlen := monthLength_bounds (monthOf day)
  have hlen' := monthLength_bounds (monthOf day + 22800)
  have hlen'' := monthLength_bounds (monthOf day + 22800 + 1)
  have hsucc := monthStart_succ (monthOf day + 22800)
  have hsucc' := monthStart_succ (monthOf day + 22800 + 1)
  have hbefore : taken day < monthStart 24000 := by
    rw [taken_eq h]
    unfold makeDay
    unfold yearOf at h
    by_cases hdecember : monthOf day % 12 = 11
    · have hyear : monthOf day + 22800 = 12 * (monthOf day / 12 + 1900) + 11 := by omega
      have hlast := monthLength_december (monthOf day / 12 + 1900)
      have hmono : monthStart (monthOf day + 22800 + 1) ≤ monthStart 24000 :=
        monthStart_strictMono.monotone (by omega)
      rw [← hyear] at hlast
      omega
    · have hmono : monthStart (monthOf day + 22800 + 1 + 1) ≤ monthStart 24000 :=
        monthStart_strictMono.monotone (by omega)
      omega
  have hmonth := monthStart_strictMono.lt_iff_lt.mp
    (lt_of_le_of_lt (monthOf_spec (taken day)).1 hbefore)
  unfold yearOf
  omega

theorem le_taken (day : Int) : day ≤ taken day := by
  by_cases h : 0 ≤ yearOf day ∧ yearOf day ≤ 99
  · exact (taken_of_two_digits h).1.le
  · rw [taken_of_year h]

theorem dayKey_strictMono : StrictMono dayKey := by
  intro a b hlt
  have hmonth := monthOf_mono hlt.le
  have ha := dayOfMonth_le a
  have hb := dayOfMonth_pos b
  have hlen := (monthLength_bounds (monthOf a)).2
  unfold dayKey yearOf
  rcases lt_or_eq_of_le hmonth with hmonth | hmonth
  · omega
  · have hdate : dayOfMonth a < dayOfMonth b := by
      unfold dayOfMonth
      rw [hmonth]
      omega
    rw [hmonth]
    omega

/-! ## Midnights -/

section Midnights

variable {z : Zone}

theorem dayKeyLocal_eq (d : Int) : dayKeyLocal z d = dayKey (z.day d) := rfl

theorem atLocalMidnight_eq (d : Int) : atLocalMidnight z d = z.instant (taken (z.day d)) 0 := rfl

theorem sameLocalDay_iff {a b : Int} : sameLocalDay z a b = true ↔ z.day a = z.day b := by
  unfold sameLocalDay Zone.getFullYear Zone.getMonth Zone.getDate
  simp only [Bool.and_eq_true, beq_iff_eq]
  constructor
  · rintro ⟨⟨hyear, hmonth⟩, hdate⟩
    apply dayKey_strictMono.injective
    unfold dayKey
    rw [hyear, hmonth, hdate]
  · intro h
    rw [h]
    exact ⟨⟨rfl, rfl⟩, rfl⟩

variable (hz : Daily z)

include hz

theorem day_midnight (day : Int) : z.day (z.instant day 0) = day := by
  unfold Zone.day
  rw [hz.midnight]
  unfold msPerDay
  omega

theorem lt_midnight_iff {day t : Int} : t < z.instant day 0 ↔ z.day t < day := by
  rw [← not_le, hz.first, not_le]

theorem midnight_lt_iff {a b : Int} : z.instant a 0 < z.instant b 0 ↔ a < b := by
  rw [lt_midnight_iff hz, day_midnight hz]

theorem midnight_le_iff {a b : Int} : z.instant a 0 ≤ z.instant b 0 ↔ a ≤ b := by
  rw [hz.first, day_midnight hz]

theorem midnight_lt_iff_day {day t : Int} : z.instant day 0 < t ↔ day ≤ z.day (t - 1) := by
  rw [← hz.first]
  omega

theorem setDate_midnight (day n : Int) :
    z.setDate (z.instant day 0) (z.getDate (z.instant day 0) + n) = z.instant (day + n) 0 := by
  have htime : z.timeInDay (z.instant day 0) = 0 := by
    unfold Zone.timeInDay
    rw [hz.midnight]
    unfold msPerDay
    omega
  unfold Zone.setDate Zone.getDate
  rw [htime, day_midnight hz, makeDay_add, makeDay_monthOf]

/-! ## The three answers -/

variable {event : EventTimeFields} {start day : Int}

/-- The midnights of consecutive days. -/
def midnights (z : Zone) (a b : Int) : List Int :=
  (List.range (b + 1 - a).toNat).map fun i : Nat => z.instant (a + (i : Int)) 0

theorem spanLoop_midnights (rounds : Nat) (a b : Int) :
    spanLoop z rounds (z.instant a 0) (z.instant b 0) =
      if (b + 1 - a).toNat ≤ rounds then some (midnights z a b) else none := by
  induction rounds generalizing a with
  | zero =>
    rw [spanLoop]
    by_cases hle : a ≤ b
    · rw [if_pos ((midnight_le_iff hz).mpr hle), if_neg (by omega)]
    · have hempty : (b + 1 - a).toNat = 0 := by omega
      rw [if_neg ((midnight_le_iff hz).not.mpr hle), if_pos (by omega), midnights, hempty]
      rfl
  | succ rounds ih =>
    rw [spanLoop]
    by_cases hle : a ≤ b
    · rw [if_pos ((midnight_le_iff hz).mpr hle), setDate_midnight hz, ih]
      by_cases hrounds : (b + 1 - (a + 1)).toNat ≤ rounds
      · have hsucc : (b + 1 - a).toNat = (b + 1 - (a + 1)).toNat + 1 := by omega
        rw [if_pos hrounds, if_pos (by omega), Option.map_some, Option.some_inj]
        unfold midnights
        rw [hsucc, List.range_succ_eq_map, List.map_cons, List.map_map]
        refine List.cons_eq_cons.mpr ⟨by simp, List.map_congr_left fun i _ => ?_⟩
        have hnext : a + 1 + (i : Int) = a + ((i + 1 : Nat) : Int) := by omega
        rw [Function.comp_apply, hnext]
      · rw [if_neg hrounds, if_neg (by omega)]
        rfl
    · have hempty : (b + 1 - a).toNat = 0 := by omega
      rw [if_neg ((midnight_le_iff hz).not.mpr hle), if_pos (by omega), midnights, hempty]
      rfl

theorem day_midnights (a b : Int) :
    (midnights z a b).map z.day =
      (List.range (b + 1 - a).toNat).map fun i : Nat => a + (i : Int) := by
  unfold midnights
  rw [List.map_map]
  exact List.map_congr_left fun i _ => day_midnight hz _

theorem any_midnights_iff (a b : Int) :
    ((midnights z a b).any fun d => sameLocalDay z d day) = true ↔
      a ≤ z.day day ∧ z.day day ≤ b := by
  unfold midnights
  rw [List.any_map, List.any_eq_true]
  constructor
  · rintro ⟨i, hi, hsame⟩
    rw [Function.comp_apply, sameLocalDay_iff, day_midnight hz] at hsame
    have hlt := List.mem_range.mp hi
    omega
  · rintro ⟨hle, hge⟩
    have hday : a + ((z.day day - a).toNat : Int) = z.day day := by omega
    refine ⟨(z.day day - a).toNat, List.mem_range.mpr (by omega), ?_⟩
    rw [Function.comp_apply, sameLocalDay_iff, day_midnight hz, hday]

/-- The days of the span, once the loop has rounds enough. -/
theorem eventSpanDays_eq (hstart : event.dtstart = some start) :
    ∃ enough : Nat, ∀ rounds, eventSpanDays z rounds event =
      if enough ≤ rounds then
        some (midnights z (taken (z.day start)) (lastNamed z event (taken (z.day start))))
      else none := by
  unfold eventSpanDays lastNamed
  rw [hstart]
  cases event.dtend with
  | none =>
    refine ⟨0, fun rounds => ?_⟩
    have hone : (taken (z.day start) + 1 - taken (z.day start)).toNat = 1 := by omega
    rw [if_pos (Nat.zero_le _), midnights, hone]
    simp [atLocalMidnight_eq]
  | some stop =>
    dsimp only
    rw [atLocalMidnight_eq, atLocalMidnight_eq]
    have hlast : (if (event.isAllDay && decide (z.instant (taken (z.day start)) 0 <
        z.instant (taken (z.day stop)) 0)) = true
        then z.setDate (z.instant (taken (z.day stop)) 0)
          (z.getDate (z.instant (taken (z.day stop)) 0) - 1)
        else z.instant (taken (z.day stop)) 0) =
        z.instant (if event.isAllDay = true ∧ taken (z.day start) < taken (z.day stop)
          then taken (z.day stop) - 1 else taken (z.day stop)) 0 := by
      have hback := setDate_midnight hz (taken (z.day stop)) (-1)
      simp only [Bool.and_eq_true, decide_eq_true_eq, midnight_lt_iff hz]
      split
      · exact hback
      · rfl
    rw [hlast]
    exact ⟨_, fun rounds => spanLoop_midnights hz rounds _ _⟩

/-- The days from the start to the last that the end reaches into. -/
theorem overlaps_iff (hstart : event.dtstart = some start)
    (hyear : taken (z.day start) = z.day start) :
    eventOverlapsLocalDay z event day = true ↔
      z.day start ≤ taken (z.day day) ∧
        taken (z.day day) ≤ lastReached z event start (z.day start) := by
  unfold eventOverlapsLocalDay lastReached
  rw [hstart]
  dsimp only
  rw [atLocalMidnight_eq, atLocalMidnight_eq, hyear, setDate_midnight hz, Bool.and_eq_true,
    decide_eq_true_eq, decide_eq_true_eq, lt_midnight_iff hz]
  have hfirst : z.day (if event.isAllDay = true then z.instant (z.day start) 0 else start) =
      z.day start := by
    split
    · exact day_midnight hz _
    · rfl
  rw [hfirst, Int.lt_add_one_iff]
  refine and_congr_right fun _ => ?_
  cases event.dtend with
  | none => exact midnight_lt_iff_day hz
  | some stop =>
    dsimp only
    split
    · rw [atLocalMidnight_eq, midnight_lt_iff hz]
      omega
    · exact midnight_lt_iff_day hz

omit hz in
theorem occurs_allDay_iff (hstart : event.dtstart = some start) (hallDay : event.isAllDay = true) :
    eventOccursOnDay z event day = true ↔
      start / msPerDay ≤ z.day day ∧
        z.day day < (event.dtend.map fun stop => stop / msPerDay).getD (start / msPerDay + 1) := by
  unfold eventOccursOnDay
  rw [hstart]
  dsimp only
  rw [if_pos hallDay, Bool.and_eq_true, decide_eq_true_eq, decide_eq_true_eq, dayKeyLocal_eq]
  unfold dayKeyUtc
  rw [dayKey_strictMono.le_iff_le]
  refine and_congr_right fun _ => ?_
  cases event.dtend with
  | none =>
    rw [Option.map_none, Option.getD_none, Int.lt_add_one_iff, Int.lt_add_one_iff]
    exact dayKey_strictMono.le_iff_le
  | some stop => exact dayKey_strictMono.lt_iff_lt

/-- By 24 hours from midnight, up to the last day that the end reaches into. -/
theorem occurs_timed_iff (hstart : event.dtstart = some start) (htimed : event.isAllDay = false) :
    eventOccursOnDay z event day = true ↔
      start < z.instant (taken (z.day day)) 0 + msPerDay ∧
        taken (z.day day) ≤ lastReached z event start (z.day start) := by
  unfold eventOccursOnDay lastReached
  rw [hstart]
  dsimp only
  rw [htimed, if_neg Bool.false_ne_true, Bool.and_eq_true, decide_eq_true_eq, decide_eq_true_eq,
    atLocalMidnight_eq, midnight_lt_iff_day hz]
  cases event.dtend with
  | none => simp
  | some stop => simp

/-! ## Exactness -/

/-- The days of the span are consecutive from the start's on where that day is one that
`new Date` keeps, and is not after the last. -/
theorem interval_iff (hstart : event.dtstart = some start) {days : List Int}
    (hdays : ∃ rounds, eventSpanDays z rounds event = some days) :
    (∃ k : Nat, days.map z.day = (List.range (k + 1)).map fun i : Nat => z.day start + (i : Int)) ↔
      taken (z.day start) = z.day start ∧ z.day start ≤ lastNamed z event (z.day start) := by
  obtain ⟨rounds, hrounds⟩ := hdays
  obtain ⟨enough, henough⟩ := eventSpanDays_eq hz hstart
  rw [henough] at hrounds
  split at hrounds
  case isFalse => cases hrounds
  case isTrue =>
    rw [← Option.some.inj hrounds, day_midnights hz]
    constructor
    · rintro ⟨k, hk⟩
      have hlen := congrArg List.length hk
      rw [List.length_map, List.length_map, List.length_range, List.length_range] at hlen
      rw [hlen] at hk
      have hhead := congrArg List.head? hk
      rw [List.range_succ_eq_map, List.map_cons, List.map_cons, List.head?_cons, List.head?_cons]
        at hhead
      have hyear : taken (z.day start) = z.day start := by simpa using hhead
      rw [hyear] at hlen
      exact ⟨hyear, by omega⟩
    · rintro ⟨hyear, hle⟩
      rw [hyear]
      exact ⟨(lastNamed z event (z.day start) - z.day start).toNat, by congr 2; omega⟩

/-- What the end says, where the start is kept. -/
theorem spans_iff (hstart : event.dtstart = some start) (hyear : taken (z.day start) = z.day start)
    {days : List Int} (hdays : ∃ rounds, eventSpanDays z rounds event = some days) :
    (days.any fun d => sameLocalDay z d day) = true ↔
      z.day start ≤ z.day day ∧ z.day day ≤ lastNamed z event (z.day start) := by
  obtain ⟨rounds, hrounds⟩ := hdays
  obtain ⟨enough, henough⟩ := eventSpanDays_eq hz hstart
  rw [henough] at hrounds
  split at hrounds
  case isFalse => cases hrounds
  case isTrue =>
    rw [← Option.some.inj hrounds, any_midnights_iff hz, hyear]

/-- The overlaps and the span, day by day. -/
theorem overlaps_eq_spans_iff (hstart : event.dtstart = some start)
    (hyear : taken (z.day start) = z.day start) {days : List Int}
    (hdays : ∃ rounds, eventSpanDays z rounds event = some days) :
    (∀ day, eventOverlapsLocalDay z event day = days.any fun d => sameLocalDay z d day) ↔
      ∀ day, z.day start ≤ taken day ∧ taken day ≤ lastReached z event start (z.day start) ↔
        z.day start ≤ day ∧ day ≤ lastNamed z event (z.day start) := by
  simp only [Bool.eq_iff_iff, overlaps_iff hz hstart hyear, spans_iff hz hstart hyear hdays]
  constructor
  · intro h day
    have hday := h (z.instant day 0)
    rwa [day_midnight hz] at hday
  · exact fun h day => h (z.day day)

/-- The 24 hours and the overlaps, where the start's own day is reached. -/
theorem occurs_eq_overlaps_iff (hstart : event.dtstart = some start)
    (hyear : taken (z.day start) = z.day start) (htimed : event.isAllDay = false)
    (hreached : z.day start ≤ lastReached z event start (z.day start)) :
    (∀ day, eventOverlapsLocalDay z event day = eventOccursOnDay z event day) ↔
      FullDays z start := by
  simp only [Bool.eq_iff_iff, overlaps_iff hz hstart hyear, occurs_timed_iff hz hstart htimed]
  constructor
  · intro h
    refine ⟨?_, fun day hlt => ?_⟩
    · have hown := h start
      rw [hyear] at hown
      exact (hown.mp ⟨le_refl _, hreached⟩).1
    · have hearlier := h (z.instant day 0)
      rw [day_midnight hz] at hearlier
      by_contra hnot
      exact absurd (hearlier.mpr ⟨by omega, by omega⟩).1 (by omega)
  · rintro ⟨hown, hearlier⟩ day
    refine and_congr_left fun _ => ?_
    constructor
    · intro hle
      rcases lt_or_eq_of_le hle with hlt | heq
      · have hafter : start < z.instant (taken (z.day day)) 0 := (lt_midnight_iff hz).mpr hlt
        unfold msPerDay
        omega
      · rwa [heq] at hown
    · intro hlt
      by_contra hnot
      have hbefore := hearlier (z.day day) (by omega)
      omega

/-- The dates in UTC and the span. -/
theorem occurs_eq_spans_iff (hstart : event.dtstart = some start)
    (hyear : taken (z.day start) = z.day start) (hallDay : event.isAllDay = true)
    (hordered : z.day start ≤ lastNamed z event (z.day start)) {days : List Int}
    (hdays : ∃ rounds, eventSpanDays z rounds event = some days) :
    (∀ day, (days.any fun d => sameLocalDay z d day) = eventOccursOnDay z event day) ↔
      SameDates z event (z.day start) start := by
  simp only [Bool.eq_iff_iff, spans_iff hz hstart hyear hdays, occurs_allDay_iff hstart hallDay]
  have hnone (hend : event.dtend = none) : lastNamed z event (z.day start) = z.day start := by
    unfold lastNamed
    rw [hend]
  constructor
  · intro h
    have hday (day : Int) := h (z.instant day 0)
    simp only [day_midnight hz] at hday
    generalize hkey :
      (event.dtend.map fun stop => stop / msPerDay).getD (start / msPerDay + 1) = key at hday
    have hfirst := (hday (z.day start)).mp ⟨le_refl _, hordered⟩
    have hlast := (hday (lastNamed z event (z.day start))).mp ⟨hordered, le_refl _⟩
    have hfirst' := (hday (start / msPerDay)).mpr ⟨le_refl _, by omega⟩
    have hlast' := (hday (key - 1)).mpr ⟨by omega, by omega⟩
    refine ⟨by omega, fun stop hend => ?_⟩
    rw [hend] at hkey
    simp only [Option.map_some, Option.getD_some] at hkey
    omega
  · rintro ⟨hfirst, hlast⟩ day
    rw [hfirst]
    cases hend : event.dtend with
    | none =>
      rw [hnone hend, Option.map_none, Option.getD_none]
      omega
    | some stop =>
      rw [Option.map_some, Option.getD_some, hlast stop hend]
      omega

end Midnights

/-- A zone with the same offset all the time. -/
def fixedZone (offset : Int) : Zone where
  toLocal t := t + offset
  ofLocal t := t - offset

theorem daily_fixedZone (offset : Int) : Daily (fixedZone offset) := by
  constructor
  · intro day t
    simp only [Zone.instant, Zone.day, fixedZone, msPerDay]
    omega
  · intro day
    simp only [Zone.instant, fixedZone]
    omega

theorem taken_between {first : Int} (h : 2000 ≤ yearOf first) (last day : Int) :
    first ≤ taken day ∧ taken day ≤ last ↔ first ≤ day ∧ day ≤ last := by
  by_cases hyear : 0 ≤ yearOf day ∧ yearOf day ≤ 99
  · have htaken : taken day < first := by
      by_contra hnot
      have hle := yearOf_mono (not_lt.mp hnot)
      have hyear' := yearOf_taken_le hyear
      omega
    have hday := le_taken day
    omega
  · rw [taken_of_year hyear]

/-- Ten to eleven on the 15th of September 2026, in UTC. -/
def meeting : EventTimeFields where
  dtstart := some (20711 * msPerDay + 10 * msPerHour)
  dtend := some (20711 * msPerDay + 11 * msPerHour)
  isAllDay := false

/-- From ten in the evening to midnight. -/
def evening : EventTimeFields where
  dtstart := some (20711 * msPerDay + 22 * msPerHour)
  dtend := some (20712 * msPerDay)
  isAllDay := false

def holiday : EventTimeFields where
  dtstart := some (20711 * msPerDay)
  dtend := some (20712 * msPerDay)
  isAllDay := true

end Lyra.CalendarGrid
