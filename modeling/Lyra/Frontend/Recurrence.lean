import Lyra.Lib.Calendar
import Lyra.Lib.Walk
import Lyra.Dav.Write
import Lyra.Frontend.Conversation

/-!
# Recurring events

`calendar-rrule.ts`: the rule of an event is read and the event is copied for its occurrences
in the visible range, walking from the first occurrence on.

JavaScript's `toUpperCase` and the viewer's time zone are parameters.  The start and the end of
an event are the instants their texts name; a start that names none is absent.  Numbers are
unbounded: a date too large for `Date` is beyond the years the walk covers.
-/

namespace Lyra.Recurrence

open Lyra.Lib

/-! ## Dates -/

def msPerDay : Int := 86400000

/-- The zone that `Date` applies, between instants and local times in milliseconds. -/
structure Zone where
  toLocal : Int → Int
  ofLocal : Int → Int

inductive Weekday
  | su | mo | tu | we | th | fr | sa
  deriving DecidableEq, Repr

/-- `DAY_NAMES`, in the order of `getDay`. -/
def dayNames : List (Weekday × Text) :=
  [(.su, "SU".toList), (.mo, "MO".toList), (.tu, "TU".toList), (.we, "WE".toList),
    (.th, "TH".toList), (.fr, "FR".toList), (.sa, "SA".toList)]

/-- 1970-01-01 was a Thursday. -/
def weekdayOf (day : Int) : Weekday := (dayNames.map (·.1)).getD ((day + 4) % 7).toNat .su

namespace Zone

variable (z : Zone)

def day (t : Int) : Int := z.toLocal t / msPerDay

def timeInDay (t : Int) : Int := z.toLocal t % msPerDay

/-- The instant of a local day and time. -/
def instant (day time : Int) : Int := z.ofLocal (day * msPerDay + time)

def getDate (t : Int) : Int := dayOfMonth (z.day t)

def getDay (t : Int) : Weekday := weekdayOf (z.day t)

def getMonth (t : Int) : Int := monthOf (z.day t) % 12

def getFullYear (t : Int) : Int := yearOf (z.day t)

def setDate (t date : Int) : Int := z.instant (makeDay (monthOf (z.day t)) date) (z.timeInDay t)

def setMonth (t month : Int) : Int :=
  z.instant (makeDay (12 * z.getFullYear t + month) (z.getDate t)) (z.timeInDay t)

def setFullYear (t year : Int) : Int :=
  z.instant (makeDay (12 * year + z.getMonth t) (z.getDate t)) (z.timeInDay t)

end Zone

/-- `Date.UTC`, which takes years of two digits for those of the last century. -/
def dateUtc (year month date hours minutes seconds : Int) : Int :=
  makeDay (12 * (if 0 ≤ year ∧ year ≤ 99 then 1900 + year else year) + month) date * msPerDay +
    (3600 * hours + 60 * minutes + seconds) * 1000

/-- What `toISOString` writes before the time. -/
def isoDate (day : Int) : Text :=
  let year := yearOf day
  let digits := Pim.fourDigits year.natAbs
  let written :=
    if 0 ≤ year ∧ year ≤ 9999 then digits
    else (if year < 0 then '-' else '+') :: Pim.twoDigits (year.natAbs / 10000) ++ digits
  written ++ '-' :: Pim.twoDigits (monthOf day % 12 + 1).toNat ++
    '-' :: Pim.twoDigits (dayOfMonth day).toNat

/-- The first ten characters of `toISOString`. -/
def dateKey (t : Int) : Text := (isoDate (t / msPerDay)).take 10

/-! ## Rules -/

inductive Freq
  | daily | weekly | monthly | yearly
  deriving DecidableEq, Repr

abbrev Positive := { n : Nat // 1 ≤ n }

theorem one_positive : 1 ≤ 1 := Nat.le_refl 1

structure ParsedRule where
  freq : Freq
  interval : Positive
  count : Option Positive
  untilAt : Option Int
  byday : Option (List Weekday)
  deriving DecidableEq, Repr

/-- A rule while its parts are read. -/
structure RuleFields where
  freq : Option Freq := none
  interval : Positive := ⟨1, one_positive⟩
  count : Option Positive := none
  untilAt : Option Int := none
  byday : Option (List Weekday) := none

def freqNamed (s : Text) : Option Freq :=
  if s = "DAILY".toList then some .daily
  else if s = "WEEKLY".toList then some .weekly
  else if s = "MONTHLY".toList then some .monthly
  else if s = "YEARLY".toList then some .yearly
  else none

def weekdayNamed (s : Text) : Option Weekday := (dayNames.find? (·.2 = s)).map (·.1)

/-- `parseInt` to the base ten; `NaN` is none. -/
def parseInt (s : Text) : Option Int :=
  let s := s.dropWhile Conversation.isSpace
  let digits := (if s.head? = some '-' ∨ s.head? = some '+' then s.drop 1 else s).takeWhile Char.isDigit
  if digits = [] then none
  else (Pim.readNat digits).map fun n => if s.head? = some '-' then -(n : Int) else n

/-- `Math.max(1, parseInt(value, 10) || 1)`. -/
def atLeastOne (n : Option Int) : Positive := ⟨max 1 (n.getD 0).toNat, Nat.le_max_left 1 _⟩

/-- `YYYYMMDD` or `YYYYMMDDTHHMMSS`, with or without a `Z`. -/
def readUntil (s : Text) : Option Int :=
  (Pim.readDate (s.take 8)).bind fun date =>
    match s.drop 8 with
    | [] => some (dateUtc date.year (date.month - 1) date.day 0 0 0)
    | 'T' :: a :: b :: c :: d :: e :: f :: zone => do
      let hours ← Pim.readNat [a, b]
      let minutes ← Pim.readNat [c, d]
      let seconds ← Pim.readNat [e, f]
      if zone = [] ∨ zone = ['Z'] then
        return dateUtc date.year (date.month - 1) date.day hours minutes seconds
      else none
    | _ => none

section Parsing

variable (upper : Text → Text)

/-- A part of a rule; none where the rule is unsupported. -/
def readPart (r : RuleFields) (part : Text) : Option RuleFields :=
  match part.splitOn '=' with
  | key :: value :: _ =>
    if key = [] ∨ value = [] then some r
    else if upper key = "FREQ".toList then
      (freqNamed (upper value)).map fun f => { r with freq := some f }
    else if upper key = "INTERVAL".toList then
      some { r with interval := atLeastOne (parseInt value) }
    else if upper key = "COUNT".toList then
      some { r with count := some (atLeastOne (parseInt value)) }
    else if upper key = "UNTIL".toList then
      some { r with untilAt := (readUntil value).or r.untilAt }
    else if upper key = "BYDAY".toList then
      ((value.splitOn ',').mapM fun d => weekdayNamed (upper (Conversation.trim d))).map fun days =>
        { r with byday := some days }
    else none
  | _ => some r

def parseRRule (rule : Text) : Option ParsedRule := do
  let body := (Conversation.dropWord "rrule:".toList rule).getD rule
  let r ← (body.splitOn ';').foldlM (readPart upper) {}
  let freq ← r.freq
  return {
    freq := freq
    interval := r.interval
    count := r.count
    untilAt := r.untilAt
    byday := r.byday }

end Parsing

namespace ParsedRule

variable (rule : ParsedRule)

/-- `rule.until && d > rule.until`. -/
def past (d : Int) : Bool := rule.untilAt.any fun u => decide (u < d)

/-- `rule.count && n >= rule.count`. -/
def exhausted (n : Nat) : Bool := rule.count.any fun c => decide (c.val ≤ n)

def days : List Weekday := rule.byday.getD []

/-- The walk of such a rule goes day by day. -/
def daywise : Bool := rule.freq = .weekly ∧ rule.days ≠ []

end ParsedRule

/-! ## Expansion -/

structure Event where
  id : Text
  dtstart : Option Int
  dtend : Option Int
  recurrenceRule : Option Text
  deriving DecidableEq, Repr

section Expansion

variable (z : Zone) (rule : ParsedRule)

/-- The `switch` of `nextOccurrence`. -/
def stepDate (candidate : Int) : Int :=
  match rule.freq with
  | .daily => z.setDate candidate (z.getDate candidate + rule.interval.val)
  | .weekly => z.setDate candidate (z.getDate candidate + rule.interval.val * 7)
  | .monthly => z.setMonth candidate (z.getMonth candidate + rule.interval.val)
  | .yearly => z.setFullYear candidate (z.getFullYear candidate + rule.interval.val)

def nextOccurrence (master candidate : Int) (n : Nat) : Option Int :=
  let d := stepDate z rule candidate
  if rule.past d then none
  else if rule.exhausted n then none
  else if z.getFullYear master + 5 < z.getFullYear d then none
  else some d

def matchesByDay (d : Int) : Bool := rule.days = [] ∨ z.getDay d ∈ rule.days

/-- How long an event takes. -/
def Event.duration (event : Event) : Int :=
  match event.dtend with
  | some dtend => dtend - event.dtstart.getD dtend
  | none => 0

def cloneForDate (event : Event) (occurrenceStart : Int) : Event :=
  { event with
    id := event.id ++ "::".toList ++ dateKey occurrenceStart
    dtstart := some occurrenceStart
    dtend := some (occurrenceStart + event.duration) }

/-- The loop of `expandEventsForRange`, with the rounds its guard leaves. -/
def occurrences (event : Event) (master rangeStart rangeEnd : Int) : Nat → Int → Nat → List Event
  | 0, _, _ => []
  | guard + 1, candidate, n =>
    let shown :=
      if rangeStart ≤ candidate ∧ candidate ≤ rangeEnd ∧
          (rule.freq ≠ .weekly ∨ matchesByDay z rule candidate) then
        [cloneForDate event candidate]
      else []
    if rangeEnd < candidate then shown
    else if rule.daywise then
      -- `daysBetween` is compared with the interval, and nothing depends on the answer
      let next := z.setDate candidate (z.getDate candidate + 1)
      if rule.past next ∨ rule.exhausted n then shown
      else shown ++ occurrences event master rangeStart rangeEnd guard next n
    else
      match nextOccurrence z rule master candidate n with
      | none => shown
      | some next => shown ++ occurrences event master rangeStart rangeEnd guard next (n + 1)

end Expansion

/-- The rule of an event, where it has a supported one. -/
def Event.rule (upper : Text → Text) (event : Event) : Option ParsedRule :=
  match event.recurrenceRule.map Conversation.trim with
  | none | some [] => none
  | some ruleText => parseRRule upper ruleText

def expandEvent (upper : Text → Text) (z : Zone) (rangeStart rangeEnd : Int) (event : Event) :
    List Event :=
  match event.rule upper, event.dtstart with
  | some rule, some master => occurrences z rule event master rangeStart rangeEnd 800 master 1
  | _, _ => [event]

def expandEventsForRange (upper : Text → Text) (z : Zone) (events : List Event)
    (rangeStart rangeEnd : Int) : List Event :=
  events.flatMap (expandEvent upper z rangeStart rangeEnd)

end Lyra.Recurrence
