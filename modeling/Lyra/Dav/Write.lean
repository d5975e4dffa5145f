import Mathlib.Data.List.DropRight
import Lyra.Lib.Lines
import Lyra.Dav.Xml
import Lyra.Backup.Mbox

/-!
# Contacts and events as text

`pim_write.rs` puts a new contact or event together as a vCard or an iCalendar text;
`parse_vcard_fields` and `parse_vevent_fields` of `dav.rs` read such texts.  The library of dates
is a parameter, and so is `to_uppercase` beyond ASCII.
-/

namespace Lyra.Pim

open Lyra.Lib

/-! ## Dates -/

structure Date where
  year : Int
  month : Nat
  day : Nat
  deriving DecidableEq, Repr

/-- A time in UTC, as its fields are shown; a leap second has the number 60. -/
structure UtcTime where
  date : Date
  hour : Nat
  minute : Nat
  second : Nat
  nanos : Nat
  deriving DecidableEq, Repr

structure UtcTime.Valid (t : UtcTime) : Prop where
  month : t.date.month ≤ 12
  day : t.date.day ≤ 31
  hour : t.hour ≤ 23
  minute : t.minute ≤ 59
  second : t.second ≤ 60

def digitValue (c : Char) : Option Nat := if c.isDigit then some (c.toNat - 48) else none

/-- A number of decimal digits. -/
def readNat (s : Text) : Option Nat :=
  s.foldlM (fun n c => (digitValue c).map (10 * n + ·)) 0

/-- `YYYY-MM-DD`, all digits. -/
def dashedDate : Text → Option Date
  | [a, b, c, d, '-', e, f, '-', g, h] => do
    return ⟨← readNat [a, b, c, d], ← readNat [e, f], ← readNat [g, h]⟩
  | _ => none

/-- A `DATE` value of a calendar. -/
def readDate : Text → Option Date
  | [a, b, c, d, e, f, g, h] => do
    return ⟨← readNat [a, b, c, d], ← readNat [e, f], ← readNat [g, h]⟩
  | _ => none

/-- A `DATE-TIME` value of a calendar, in UTC. -/
def readUtc (s : Text) : Option UtcTime :=
  match s.drop 8 with
  | ['T', a, b, c, d, e, f, 'Z'] => do
    return ⟨← readDate (s.take 8), ← readNat [a, b], ← readNat [c, d], ← readNat [e, f], 0⟩
  | _ => none

/-- The library of dates, and `to_uppercase`. -/
structure TextLib where
  toUppercase : Text → Text
  /-- `DateTime::parse_from_rfc3339`, in UTC. -/
  parseRfc3339 : Text → Option UtcTime
  /-- `NaiveDate::parse_from_str` with `%Y-%m-%d`. -/
  parseYmd : Text → Option Date
  toUppercase_ascii : ∀ s : Text, (∀ c ∈ s, c.toNat < 128) → toUppercase s = s.map Char.toUpper
  valid : ∀ s t, parseRfc3339 s = some t → t.Valid
  parseYmd_digits : ∀ s d d', dashedDate s = some d → parseYmd s = some d' → d' = d

def digit (n : Nat) : Char := Nat.digitChar (n % 10)

def twoDigits (n : Nat) : Text := [digit (n / 10), digit n]

def fourDigits (n : Nat) : Text := twoDigits (n / 100) ++ twoDigits n

/-- `%Y`: years before 0 and after 9999 have a sign. -/
def formatYear : Int → Text
  | .ofNat n => if n ≤ 9999 then fourDigits n else '+' :: decimal n
  | .negSucc n => '-' :: if n < 9999 then fourDigits (n + 1) else decimal (n + 1)

/-- `%Y%m%dT%H%M%SZ`. -/
def formatUtc (t : UtcTime) : Text :=
  formatYear t.date.year ++ twoDigits t.date.month ++ twoDigits t.date.day ++ ['T'] ++
    twoDigits t.hour ++ twoDigits t.minute ++ twoDigits t.second ++ ['Z']

/-! ## Writing -/

def escapeChar : Char → Text
  | '\\' => ['\\', '\\']
  | ';' => ['\\', ';']
  | ',' => ['\\', ',']
  | '\n' => ['\\', 'n']
  | '\r' => ['\\', 'n']
  | c => [c]

/-- `escape_text`. -/
def escapeText (raw : Text) : Text := raw.flatMap escapeChar

/-- What `Uuid::to_string` gives. -/
structure Uuid where
  text : Text
  hex : ∀ c ∈ text, c ∈ "0123456789abcdef-".toList
  nonempty : text ≠ []

/-- A property line. -/
def property (name : String) (value : Text) : Text := name.toList ++ ':' :: value

/-- An optional field, trimmed; one of blanks is none. -/
def givenText (field : Option Text) : Option Text :=
  (field.filter fun s => !(trimText s).isEmpty).map trimText

structure NewContact where
  displayName : Text
  email : Option Text
  phone : Option Text
  organisation : Option Text
  deriving DecidableEq, Repr

structure CreateContactRequest where
  displayName : Text
  email : Option Text
  phone : Option Text
  organisation : Option Text
  deriving DecidableEq, Repr

/-- The contact that `create_contact` writes. -/
def newContact (body : CreateContactRequest) : Except String NewContact :=
  if (trimText body.displayName).isEmpty then .error "displayName must not be empty"
  else .ok ⟨trimText body.displayName, body.email, body.phone, body.organisation⟩

/-- The line of an optional field. -/
def optionalLine (name : String) (field : Option Text) : List Text :=
  ((givenText field).map fun s => property name (escapeText s)).toList

def cardLines (uid : Uuid) (c : NewContact) : List Text :=
  ["BEGIN:VCARD".toList, "VERSION:4.0".toList, property "UID" (escapeText uid.text),
    property "FN" (escapeText c.displayName), property "N" (escapeText c.displayName)] ++
    optionalLine "EMAIL" c.email ++ optionalLine "TEL" c.phone ++
    optionalLine "ORG" c.organisation ++ ["END:VCARD".toList]

/-- `build_vcard`. -/
def buildVcard (uid : Uuid) (c : NewContact) : Text := joinLines (cardLines uid c)

structure NewEvent where
  summary : Text
  dtstart : Text
  dtend : Option Text
  isAllDay : Bool
  location : Option Text
  description : Option Text
  deriving DecidableEq, Repr

section Events

variable (lib : TextLib)

def icalUtc (rfc3339 : Text) : Except String Text :=
  match lib.parseRfc3339 rfc3339 with
  | none => .error ("invalid dtstart/dtend '" ++ String.ofList rfc3339 ++ "': use RFC3339")
  | some t => .ok (formatUtc t)

def badDate (ymd : Text) : String :=
  "invalid date '" ++ String.ofList ymd ++ "': use YYYY-MM-DD"

/-- `-`. -/
def dash : UInt8 := 45

def icalDate (ymd : Text) : Except String Text :=
  if (utf8 ymd).length ≠ 10 ∨ (utf8 ymd)[4]? ≠ some dash ∨ (utf8 ymd)[7]? ≠ some dash then
    .error (badDate ymd)
  else
    match lib.parseYmd ymd with
    | none => .error (badDate ymd)
    | some _ => .ok (ymd.filter (· ≠ '-'))

def allDayName (name : String) : String := name ++ ";VALUE=DATE"

/-- The end that is given; a timed event has none where it is blank. -/
def NewEvent.givenEnd (e : NewEvent) : Option Text :=
  if e.isAllDay then e.dtend else e.dtend.filter fun s => !(trimText s).isEmpty

def icalValue (e : NewEvent) (value : Text) : Except String Text :=
  if e.isAllDay then icalDate lib value else icalUtc lib value

def dateName (e : NewEvent) (name : String) : String :=
  if e.isAllDay then allDayName name else name

/-- The line of the end, if there is one. -/
def endLine (e : NewEvent) : Except String (List Text) :=
  match e.givenEnd with
  | none => .ok []
  | some d => (icalValue lib e d).map fun value => [property (dateName e "DTEND") value]

/-- The lines of an event, from the value of its start and the line of its end. -/
def eventLines (now : UtcTime) (uid : Uuid) (e : NewEvent) (dtstart : Text) (dtend : List Text) :
    List Text :=
  ["BEGIN:VCALENDAR".toList, "VERSION:2.0".toList, "PRODID:-//Lyra//EN".toList,
    "BEGIN:VEVENT".toList, property "UID" uid.text,
    property "SUMMARY" (escapeText (trimText e.summary)),
    property (dateName e "DTSTART") dtstart] ++ dtend ++
    optionalLine "LOCATION" e.location ++ optionalLine "DESCRIPTION" e.description ++
    [property "DTSTAMP" (formatUtc now), "END:VEVENT".toList, "END:VCALENDAR".toList]

/-- `build_vevent`. -/
def buildVevent (now : UtcTime) (uid : Uuid) (e : NewEvent) : Except String Text :=
  if (trimText e.summary).isEmpty then .error "summary must not be empty"
  else do
    let dtstart ← icalValue lib e e.dtstart
    let dtend ← endLine lib e
    return joinLines (eventLines now uid e dtstart dtend)

/-! ## Reading -/

structure VcardFields where
  displayName : Option Text := none
  emails : List Text := []
  phones : List Text := []
  org : Option Text := none
  deriving DecidableEq, Repr

def VcardFields.set (f : VcardFields) (prop value : Text) : VcardFields :=
  if prop = "FN".toList then { f with displayName := some value }
  else if prop = "EMAIL".toList then { f with emails := f.emails ++ [value] }
  else if prop = "TEL".toList then { f with phones := f.phones ++ [value] }
  else if prop = "ORG".toList then { f with org := some (value.takeWhile (· ≠ ';')) }
  else f

/-- The name of a property, from what stands before the colon. -/
def propertyName (namePart : Text) : Text := lib.toUppercase (namePart.takeWhile (· ≠ ';'))

def VcardFields.read (f : VcardFields) (raw : Text) : VcardFields :=
  let line := trimText raw
  if line.isEmpty then f
  else
    match splitOnce ':' line with
    | none => f
    | some (namePart, value) => f.set (propertyName lib namePart) (trimText value)

/-- `parse_vcard_fields`. -/
def parseVcardFields (vcard : Text) : VcardFields :=
  (lines vcard).foldl (VcardFields.read lib) {}

structure VeventFields where
  summary : Option Text := none
  description : Option Text := none
  dtstart : Option Text := none
  dtend : Option Text := none
  location : Option Text := none
  isAllDay : Bool := false
  deriving DecidableEq, Repr

def contains (pat s : Text) : Bool := (findText pat s).isSome

/-- The start is a date, by its parameters or its length. -/
def startsAllDay (namePart value : Text) : Bool :=
  !contains "VALUE=DATE-TIME".toList (lib.toUppercase namePart) &&
    (contains "VALUE=DATE".toList (lib.toUppercase namePart) || (utf8 value).length == 8)

def VeventFields.set (f : VeventFields) (namePart prop value : Text) : VeventFields :=
  if prop = "SUMMARY".toList then { f with summary := some value }
  else if prop = "DESCRIPTION".toList then { f with description := some value }
  else if prop = "DTSTART".toList then
    { f with isAllDay := startsAllDay lib namePart value, dtstart := some value }
  else if prop = "DTEND".toList then { f with dtend := some value }
  else if prop = "LOCATION".toList then { f with location := some value }
  else f

/-- A line inside the event, trimmed. -/
def VeventFields.read (f : VeventFields) (line : Text) : VeventFields :=
  match splitOnce ':' line with
  | none => f
  | some (namePart, value) => f.set lib namePart (propertyName lib namePart) (trimText value)

/-- The loop of `parse_vevent_fields`. -/
def readVeventLines : Bool → VeventFields → List Text → VeventFields
  | _, f, [] => f
  | inEvent, f, raw :: rest =>
    let line := trimText raw
    if eqIgnoreAsciiCase line "BEGIN:VEVENT".toList then readVeventLines true f rest
    else if eqIgnoreAsciiCase line "END:VEVENT".toList then f
    else if !inEvent then readVeventLines inEvent f rest
    else readVeventLines inEvent (f.read lib line) rest

/-- `parse_vevent_fields`. -/
def parseVeventFields (ical : Text) : VeventFields := readVeventLines lib false {} (lines ical)

end Events

/-! ## Trimming -/

section Trimming

variable {a s : Text} {c : Char}

def trimEnd (s : Text) : Text := (trimStart s.reverse).reverse

theorem trimText_eq (s : Text) : trimText s = trimEnd (trimStart s) := rfl

theorem dropWhile_append_of_not {p : Char → Bool} (hc : p c = false) (a b : Text) :
    (a ++ c :: b).dropWhile p = a.dropWhile p ++ c :: b := by
  induction a with
  | nil => rw [List.nil_append, List.dropWhile_cons_of_neg (by rw [hc]; simp)]; rfl
  | cons x a ih =>
    rw [List.cons_append, List.dropWhile_cons, List.dropWhile_cons]
    split
    · exact ih
    · rfl

theorem trimStart_cons (hc : isWhite c = false) (s : Text) : trimStart (c :: s) = c :: s :=
  List.dropWhile_cons_of_neg (by rw [hc]; simp)

theorem trimEnd_append (hc : isWhite c = false) (a v : Text) :
    trimEnd (a ++ c :: v) = a ++ c :: trimEnd v := by
  unfold trimEnd trimStart
  rw [List.reverse_append, List.reverse_cons, List.append_assoc, List.singleton_append,
    dropWhile_append_of_not hc, List.reverse_append, List.reverse_cons, List.reverse_reverse]
  simp

theorem trimEnd_cons_white (hc : isWhite c = true) (s : Text) :
    trimEnd (c :: s) = if trimEnd s = [] then [] else c :: trimEnd s := by
  unfold trimEnd trimStart
  rw [List.reverse_cons, List.dropWhile_append]
  cases hrest : s.reverse.dropWhile isWhite with
  | nil => simp [hc]
  | cons x rest => simp

theorem trimStart_trimEnd (s : Text) : trimStart (trimEnd s) = trimEnd (trimStart s) := by
  induction s with
  | nil => rfl
  | cons c s ih =>
    cases hc : isWhite c with
    | false =>
      rw [trimStart_cons hc]
      have hend := trimEnd_append hc [] s
      rw [List.nil_append, List.nil_append] at hend
      rw [hend, trimStart_cons hc]
    | true =>
      have hstart : trimStart (c :: s) = trimStart s := List.dropWhile_cons_of_pos hc
      rw [hstart, ← ih, trimEnd_cons_white hc]
      split
      · rename_i hempty
        rw [hempty]
      · exact List.dropWhile_cons_of_pos hc

theorem trimEnd_trimEnd (s : Text) : trimEnd (trimEnd s) = trimEnd s := by
  unfold trimEnd trimStart
  rw [List.reverse_reverse, List.dropWhile_idempotent]

theorem trimStart_trimStart (s : Text) : trimStart (trimStart s) = trimStart s :=
  List.dropWhile_idempotent _ _

theorem trimText_trimEnd (s : Text) : trimText (trimEnd s) = trimText s := by
  rw [trimText_eq, trimStart_trimEnd, trimEnd_trimEnd, trimText_eq]

theorem trimText_trimText (s : Text) : trimText (trimText s) = trimText s := by
  rw [trimText_eq s, trimText_trimEnd, trimText_eq, trimStart_trimStart]

theorem trimText_append (hname : ∀ c ∈ a.head?, isWhite c = false) (hne : a ≠ []) (v : Text) :
    trimText (a ++ ':' :: v) = a ++ ':' :: trimEnd v := by
  cases a with
  | nil => exact absurd rfl hne
  | cons c a =>
    rw [trimText_eq, List.cons_append, trimStart_cons (hname c rfl), ← List.cons_append]
    exact trimEnd_append (by decide) (c :: a) v

theorem trimText_eq_self (hfirst : ∀ c ∈ s.head?, isWhite c = false)
    (hlast : ∀ c ∈ s.getLast?, isWhite c = false) : trimText s = s := by
  have hstart : ∀ t : Text, (∀ c ∈ t.head?, isWhite c = false) → trimStart t = t := by
    intro t ht
    cases t with
    | nil => rfl
    | cons c t => exact trimStart_cons (ht c rfl) t
  rw [trimText_eq, hstart s hfirst]
  unfold trimEnd
  rw [hstart s.reverse (by rwa [List.head?_reverse]), List.reverse_reverse]

theorem head_trimStart : ∀ c ∈ (trimStart s).head?, isWhite c = false := by
  intro c hc
  have hhead := List.head?_dropWhile_not isWhite s
  unfold trimStart at hc
  rw [Option.mem_def.mp hc] at hhead
  simpa using hhead

theorem ends_of_trimmed (h : trimText s = s) :
    (∀ c ∈ s.head?, isWhite c = false) ∧ ∀ c ∈ s.getLast?, isWhite c = false := by
  constructor
  · have hs : trimStart (trimEnd s) = s := by rw [trimStart_trimEnd, ← trimText_eq, h]
    rw [← hs]
    exact head_trimStart
  · rw [← h, trimText_eq]
    unfold trimEnd
    rw [List.getLast?_reverse]
    exact head_trimStart

end Trimming

/-! ## Escaping -/

section Escaping

variable {c : Char} {s : Text}

/-- The characters that are escaped. -/
def specials : Text := ['\\', ';', ',', '\n', '\r']

/-- Nothing in the text is escaped. -/
def Unescaped (s : Text) : Prop := ∀ c ∈ s, c ∉ specials

instance : DecidablePred Unescaped := fun s =>
  decidable_of_iff ((s.all fun c => decide (c ∉ specials)) = true)
    ⟨fun h c hc => of_decide_eq_true (List.all_eq_true.mp h c hc),
      fun h => List.all_eq_true.mpr fun c hc => decide_eq_true (h c hc)⟩

theorem escapeChar_of_not_mem (hc : c ∉ specials) : escapeChar c = [c] := by
  unfold escapeChar
  split
  · exact absurd (by decide) hc
  · exact absurd (by decide) hc
  · exact absurd (by decide) hc
  · exact absurd (by decide) hc
  · exact absurd (by decide) hc
  · rfl

/-- An escaped character is a backslash and one that is neither blank nor a line end. -/
theorem escapeChar_of_mem (hc : c ∈ specials) :
    ∃ d, escapeChar c = ['\\', d] ∧ isWhite d = false ∧ d ≠ '\n' ∧ d ≠ '\r' := by
  unfold specials at hc
  simp only [List.mem_cons, List.not_mem_nil, or_false] at hc
  rcases hc with rfl | rfl | rfl | rfl | rfl
  · exact ⟨'\\', rfl, by decide, by decide, by decide⟩
  · exact ⟨';', rfl, by decide, by decide, by decide⟩
  · exact ⟨',', rfl, by decide, by decide, by decide⟩
  · exact ⟨'n', rfl, by decide, by decide, by decide⟩
  · exact ⟨'n', rfl, by decide, by decide, by decide⟩

theorem escapeText_cons (c : Char) (s : Text) :
    escapeText (c :: s) = escapeChar c ++ escapeText s := List.flatMap_cons

theorem length_escapeText_le (s : Text) : s.length ≤ (escapeText s).length := by
  induction s with
  | nil => exact Nat.le_refl 0
  | cons c s ih =>
    have hc : 1 ≤ (escapeChar c).length := by
      rcases Decidable.em (c ∈ specials) with hmem | hmem
      · obtain ⟨d, hd, -⟩ := escapeChar_of_mem hmem
        rw [hd]
        exact Nat.le_succ 1
      · rw [escapeChar_of_not_mem hmem]
        exact Nat.le_refl 1
    rw [escapeText_cons, List.length_append, List.length_cons]
    omega

theorem escapeText_eq_self : escapeText s = s ↔ Unescaped s := by
  induction s with
  | nil => exact iff_of_true rfl fun c hc => (List.not_mem_nil hc).elim
  | cons c s ih =>
    rw [escapeText_cons]
    rcases Decidable.em (c ∈ specials) with hc | hc
    · apply iff_of_false
      · intro h
        obtain ⟨d, hd, -⟩ := escapeChar_of_mem hc
        have hlength := congrArg List.length h
        rw [hd, List.length_append, List.length_cons] at hlength
        have hle := length_escapeText_le s
        simp only [List.length_cons, List.length_nil] at hlength
        omega
      · intro h
        exact h c List.mem_cons_self hc
    · rw [escapeChar_of_not_mem hc, List.singleton_append, List.cons.injEq, ih]
      constructor
      · rintro ⟨-, h⟩ x hx
        rcases List.mem_cons.mp hx with rfl | hx
        · exact hc
        · exact h x hx
      · intro h
        exact ⟨rfl, fun x hx => h x (List.mem_cons_of_mem _ hx)⟩

theorem escapeText_line : ∀ c ∈ escapeText s, c ≠ '\n' ∧ c ≠ '\r' := by
  intro c hc
  obtain ⟨x, -, hx⟩ := List.mem_flatMap.mp hc
  rcases Decidable.em (x ∈ specials) with hmem | hmem
  · obtain ⟨d, hd, -, hn, hr⟩ := escapeChar_of_mem hmem
    rw [hd] at hx
    rcases List.mem_cons.mp hx with rfl | hx
    · exact ⟨by decide, by decide⟩
    · rw [List.mem_singleton.mp hx]
      exact ⟨hn, hr⟩
  · rw [escapeChar_of_not_mem hmem] at hx
    rw [List.mem_singleton.mp hx]
    constructor
    · rintro rfl
      exact hmem (by decide)
    · rintro rfl
      exact hmem (by decide)

theorem head_escapeChar (hc : isWhite c = false) :
    ∀ d ∈ (escapeChar c).head?, isWhite d = false := by
  rcases Decidable.em (c ∈ specials) with hmem | hmem
  · obtain ⟨d, hd, -⟩ := escapeChar_of_mem hmem
    rw [hd]
    intro x hx
    cases hx
    decide
  · rw [escapeChar_of_not_mem hmem]
    intro x hx
    cases hx
    exact hc

theorem last_escapeChar (hc : isWhite c = false) :
    ∀ d ∈ (escapeChar c).getLast?, isWhite d = false := by
  rcases Decidable.em (c ∈ specials) with hmem | hmem
  · obtain ⟨d, hd, hwhite, -⟩ := escapeChar_of_mem hmem
    rw [hd]
    intro x hx
    cases hx
    exact hwhite
  · rw [escapeChar_of_not_mem hmem]
    intro x hx
    cases hx
    exact hc

/-- Escaping keeps a text trimmed. -/
theorem trimText_escapeText (h : trimText s = s) : trimText (escapeText s) = escapeText s := by
  obtain ⟨hfirst, hlast⟩ := ends_of_trimmed h
  have hne : ∀ c, escapeChar c ≠ [] := by
    intro c
    rcases Decidable.em (c ∈ specials) with hmem | hmem
    · obtain ⟨d, hd, -⟩ := escapeChar_of_mem hmem
      rw [hd]
      exact List.cons_ne_nil _ _
    · rw [escapeChar_of_not_mem hmem]
      exact List.cons_ne_nil _ _
  apply trimText_eq_self
  · cases s with
    | nil => exact hfirst
    | cons c s =>
      rw [escapeText_cons, List.head?_append_of_ne_nil _ (hne c)]
      exact head_escapeChar (hfirst c rfl)
  · cases hs : s.reverse with
    | nil =>
      rw [List.reverse_eq_nil_iff.mp hs]
      exact fun c hc => by cases hc
    | cons c l =>
      have hs' : s = l.reverse ++ [c] := by
        rw [← List.reverse_reverse s, hs, List.reverse_cons]
      have hc : isWhite c = false := hlast c (by rw [hs']; simp)
      have hesc : escapeText s = escapeText l.reverse ++ escapeChar c := by
        rw [hs']
        unfold escapeText
        rw [List.flatMap_append, List.flatMap_singleton]
      rw [hesc, List.getLast?_append_of_ne_nil _ (hne c)]
      exact last_escapeChar hc

end Escaping

end Lyra.Pim
