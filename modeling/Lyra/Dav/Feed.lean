import Lyra.Dav.CalendarDates

/-!
# Subscribed calendars

`parse_ics_feed` undoes the folding of the lines of a feed, cuts it into its events and reads
each of them.  As in `CalendarDates`, none is a panic.
-/

namespace Lyra.Pim

open Lyra.Lib

structure ParsedIcsEvent where
  uid : Text
  summary : Option Text
  description : Option Text
  dtstart : Option UtcTime
  dtend : Option UtcTime
  location : Option Text
  isAllDay : Bool
  rrule : Option Text
  status : Option Text
  blob : Text
  deriving DecidableEq, Repr

structure ParsedIcsFeed where
  calendarName : Option Text
  events : List ParsedIcsEvent
  deriving DecidableEq, Repr

/-! ## Folded lines -/

/-- The pieces between line feeds, without the carriage return before a line feed. -/
def rawLines : List Text → List Text
  | [] => []
  | [last] => [last]
  | l :: rest => stripCr l :: rawLines rest

def startsFolded (raw : Text) : Bool := raw.head? == some ' ' || raw.head? == some '\t'

def unfoldLine (out raw : Text) : Text :=
  if startsFolded raw then out ++ trimStart raw
  else if out.isEmpty then raw else out ++ '\n' :: raw

def unfoldIcal (ics : Text) : Text := (rawLines (ics.splitOn '\n')).foldl unfoldLine []

/-! ## Events -/

section Events

variable (lib : CalendarLib)

/-- The properties that `parse_one_vevent` reads itself. -/
structure OwnProperties where
  uid : Option Text := none
  rrule : Option Text := none
  status : Option Text := none
  deriving DecidableEq, Repr

def OwnProperties.read (p : OwnProperties) (line : Text) : OwnProperties :=
  match splitOnce ':' line with
  | none => p
  | some (namePart, value) =>
    let prop := propertyName lib.toTextLib namePart
    if prop = "UID".toList then { p with uid := some (trimText value) }
    else if prop = "RRULE".toList then { p with rrule := some (trimText value) }
    else if prop = "STATUS".toList then { p with status := some (trimText value) }
    else p

/-- The UID of an event that has none. -/
def inventedUid (dtstart : Option Text) : Text :=
  "lyra-ics-".toList ++ dtstart.getD "unknown".toList

def parseOneVevent (blob : Text) : Option ParsedIcsEvent := do
  let fields := parseVeventFields lib.toTextLib blob
  let own := (lines blob).foldl (OwnProperties.read lib) {}
  let times ← feedTimes lib fields
  return {
    uid := (own.uid.filter fun u => !u.isEmpty).getD (inventedUid fields.dtstart)
    summary := fields.summary
    description := fields.description
    dtstart := times.dtstart
    dtend := times.dtend
    location := fields.location
    isAllDay := times.isAllDay
    rrule := own.rrule
    status := own.status
    blob := blob }

/-! ## The feed -/

/-- What the loop of `parse_ics_feed` carries. -/
structure FeedState where
  calendarName : Option Text := none
  events : List ParsedIcsEvent := []
  inEvent : Bool := false
  eventLines : List Text := []

def calendarNameOf (line : Text) : Option Text :=
  (splitOnce ':' line).bind fun (namePart, value) =>
    if propertyName lib.toTextLib namePart = "X-WR-CALNAME".toList then some (trimText value)
    else none

def FeedState.read (st : FeedState) (line : Text) : Option FeedState :=
  let trimmed := trimEnd line
  if eqIgnoreAsciiCase trimmed "BEGIN:VEVENT".toList then
    some { st with inEvent := true, eventLines := [trimmed] }
  else if eqIgnoreAsciiCase trimmed "END:VEVENT".toList then do
    let ev ← parseOneVevent lib (['\n'].intercalate (st.eventLines ++ [trimmed]))
    return { st with events := st.events ++ [ev], inEvent := false, eventLines := [] }
  else if st.inEvent then some { st with eventLines := st.eventLines ++ [trimmed] }
  else
    match calendarNameOf lib trimmed with
    | some name => some { st with calendarName := some name }
    | none => some st

def parseIcsFeed (ics : Text) : Option ParsedIcsFeed := do
  let st ← (lines (unfoldIcal ics)).foldlM (FeedState.read lib) {}
  return ⟨st.calendarName, st.events⟩

end Events

end Lyra.Pim
