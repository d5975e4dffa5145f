import Lyra.Lib.ByteSlices
import Lyra.Lib.Calendar
import Lyra.Store.Codec
import Lyra.Backup.Reconstruct
import Lyra.Dav.WriteRoundTrip

/-!
# Dates of calendars

An event comes from a subscribed feed or from a CalDAV server.  `normalize_ics_dt` reads the
dates of the one and `parse_ical_dt` those of the other; both cut the text at byte offsets.

* `returns_iff`: neither panics where no slice that is reached cuts a character;
* `bothRead_of_accepted`: what both accept is the same time to them;
* `pathsAgree_iff`: the row of a CalDAV event never says that it is all day.
-/

namespace Lyra.Pim

open Lyra.Lib Lyra.Backup

/-! ## Numbers and times -/

def parseI32 : Text → Option Int
  | '-' :: s => if s.head?.any Char.isDigit then (parseUnsigned (2 ^ 31 + 1) s).map fun n => -n
    else none
  | s => (parseUnsigned (2 ^ 31) s).map Int.ofNat

def parseU32 (s : Text) : Option Int := (parseUnsigned (2 ^ 32) s).map Int.ofNat

/-- `NaiveDate::from_ymd_opt`. -/
def fromYmdOpt (y m d : Int) : Option Date :=
  if -262143 ≤ y ∧ y ≤ 262142 ∧ 1 ≤ m ∧ m ≤ 12 ∧ 1 ≤ d ∧ d ≤ monthLength (12 * y + (m - 1)) then
    some ⟨y, m.toNat, d.toNat⟩
  else none

/-- `NaiveDate::and_hms_opt`. -/
def Date.andHmsOpt (date : Date) (h mi s : Int) : Option UtcTime :=
  if 0 ≤ h ∧ h < 24 ∧ 0 ≤ mi ∧ mi < 60 ∧ 0 ≤ s ∧ s < 60 then
    some ⟨date, h.toNat, mi.toNat, s.toNat, 0⟩
  else none

/-- The time of a date, or of a date and a time of day. -/
def naiveTime : List Int → Option UtcTime
  | [y, m, d] => (fromYmdOpt y m d).bind fun date => date.andHmsOpt 0 0 0
  | [y, m, d, h, mi, s] => (fromYmdOpt y m d).bind fun date => date.andHmsOpt h mi s
  | _ => none

def dateFields : List ByteField := [⟨0, 4, parseI32⟩, ⟨4, 6, parseU32⟩, ⟨6, 8, parseU32⟩]

def timeFields : List ByteField := [⟨9, 11, parseU32⟩, ⟨11, 13, parseU32⟩, ⟨13, 15, parseU32⟩]

/-- The time whose numbers stand in the fields; the outer option is none where a slice panics. -/
def readTime (fields : List ByteField) (raw : Text) : OptionT Option UtcTime := do
  let ns ← readSlices fields raw
  OptionT.mk (some (naiveTime ns))

/-- What RFC 3339 says of a date and time. -/
structure CalendarLib extends TextLib where
  rfc3339_shape : ∀ s t, parseRfc3339 s = some t → ∃ y rest, s = y ++ '-' :: rest ∧
    y.length = 4 ∧ (∀ c ∈ y, c.isDigit = true) ∧ rest[11]? = some ':' ∧ 15 ≤ rest.length

section Reading

variable (lib : CalendarLib)

/-- `normalize_ics_dt`, without the text of the time. -/
def normalizeIcsDt (value : Text) : OptionT Option UtcTime :=
  let raw := trimText value
  let digits := trimEndMatches 'Z' raw
  if byteLength raw = 8 ∧ raw.all Char.isDigit = true then readTime dateFields raw
  else if 15 ≤ byteLength raw ∧ raw.getLast? = some 'Z' ∧ 15 ≤ byteLength digits then
    readTime (dateFields ++ timeFields) digits
  else OptionT.mk (some (lib.parseRfc3339 raw))

/-- `parts` of `parse_ical_dt`. -/
def parts (raw : Text) (withTime : Bool) : OptionT Option UtcTime :=
  readTime (if withTime then dateFields ++ timeFields else dateFields) raw

def parseIcalDt (value : Text) : OptionT Option UtcTime :=
  let raw := trimText value
  if byteLength raw = 16 ∧ raw.getLast? = some 'Z' then parts raw true
  else if byteLength raw = 8 then parts raw false
  else OptionT.mk (some (lib.parseRfc3339 raw))

/-- A field that may be missing. -/
def readOptional (read : Text → OptionT Option UtcTime) : Option Text → Option (Option UtcTime)
  | none => some none
  | some raw => (read raw).run

/-- `normalize_ical_dt`. -/
def normalizeIcalDt : Option Text → Option (Option UtcTime) :=
  readOptional fun raw => parseIcalDt lib (trimText raw)

/-- What the row of an event says of its time. -/
structure EventTimes where
  dtstart : Option UtcTime
  dtend : Option UtcTime
  isAllDay : Bool
  deriving DecidableEq, Repr

/-- `parse_one_vevent`, whose event `replace_subscription_events` stores. -/
def feedTimes (f : VeventFields) : Option EventTimes := do
  let dtstart ← readOptional (normalizeIcsDt lib) f.dtstart
  let dtend ← readOptional (normalizeIcsDt lib) f.dtend
  return ⟨dtstart, dtend, f.isAllDay⟩

/-- `upsert_event`: `is_all_day` is none of its columns, so it is false by default. -/
def davTimes (f : VeventFields) : Option EventTimes := do
  let dtstart ← normalizeIcalDt lib f.dtstart
  let dtend ← normalizeIcalDt lib f.dtend
  return ⟨dtstart, dtend, false⟩

/-- The fields of an event after the line of its start. -/
def startLine (namePart value : Text) : VeventFields :=
  ({} : VeventFields).set lib.toTextLib namePart "DTSTART".toList (trimText value)

/-- Neither path panics on the value, and an event that both accept is the same to them. -/
structure PathsAgree (namePart value : Text) : Prop where
  feed_returns : (normalizeIcsDt lib value).run ≠ none
  dav_returns : (parseIcalDt lib value).run ≠ none
  same : ∀ feed dav a b, feedTimes lib (startLine lib namePart value) = some feed →
    davTimes lib (startLine lib namePart value) = some dav →
    feed.dtstart = some a → dav.dtstart = some b → a = b ∧ feed.isAllDay = dav.isAllDay

end Reading

/-! ## Where it holds -/

/-- The text is read as a date and a time of day. -/
def Timed (raw : Text) : Prop :=
  raw.getLast? = some 'Z' ∧
    (byteLength raw = 16 ∨ 15 ≤ byteLength (trimEndMatches 'Z' raw))

/-- No slice that is reached cuts a character. -/
structure Uncut (raw : Text) : Prop where
  date : byteLength raw = 8 → Whole dateFields raw
  time : Timed raw → Whole (dateFields ++ timeFields) raw

/-- Eight digits, of a day that there is. -/
def DateText (raw : Text) : Prop :=
  byteLength raw = 8 ∧ raw.all Char.isDigit = true ∧
    ∃ ns t, Numbers dateFields raw ns ∧ naiveTime ns = some t

/-- A date and a time of day in UTC, as calendars write them. -/
def TimeText (raw : Text) : Prop :=
  byteLength raw = 16 ∧ raw.getLast? = some 'Z' ∧
    ∃ ns t, Numbers (dateFields ++ timeFields) raw ns ∧ naiveTime ns = some t

/-- The forms that both paths read. -/
def BothRead (lib : CalendarLib) (raw : Text) : Prop :=
  DateText raw ∨ TimeText raw ∨
    raw.getLast? ≠ some 'Z' ∧ ∃ t, lib.parseRfc3339 raw = some t

section Agreement

variable {lib : CalendarLib} {raw namePart value : Text} {c : Char} {s : Text} {t : UtcTime}
  {ns : List Int}

/-! ## Numbers -/

theorem isDigit_of_parseUnsigned {bound n : Nat} (h : parseUnsigned bound s = some n) :
    ∀ c ∈ s, c.isDigit = true ∨ c = '+' := by
  unfold parseUnsigned at h
  simp only [Option.ite_none_right_eq_some] at h
  have hall := List.all_eq_true.mp h.1.2
  intro c hc
  split at hall
  · rcases List.mem_cons.mp hc with rfl | hc
    · exact Or.inr rfl
    · exact Or.inl (hall c hc)
  · exact Or.inl (hall c hc)

theorem isDigit_of_parseU32 {n : Int} (h : parseU32 s = some n) :
    ∀ c ∈ s, c.isDigit = true ∨ c = '+' := by
  obtain ⟨m, hm, -⟩ := Option.map_eq_some_iff.mp h
  exact isDigit_of_parseUnsigned hm

theorem utf8Size_of_isDigit (h : c.isDigit = true) : c.utf8Size = 1 := by
  simp only [Char.isDigit, Bool.and_eq_true, decide_eq_true_eq] at h
  have h57 : c.val ≤ 57 := h.2
  have h127 : c.val ≤ 127 := Nat.le_trans h57 (by decide)
  simp [Char.utf8Size, h127]

/-! ## Fields -/

theorem dateFields_within {n : Nat} (hn : 8 ≤ n) : ∀ f ∈ dateFields, f.Within n := by
  simp only [dateFields, List.forall_mem_cons, ByteField.Within]
  simp
  omega

theorem allFields_within {n : Nat} (hn : 15 ≤ n) :
    ∀ f ∈ dateFields ++ timeFields, f.Within n := by
  simp only [dateFields, timeFields, List.cons_append, List.nil_append, List.forall_mem_cons,
    ByteField.Within]
  simp
  omega

theorem run_readTime (fields : List ByteField) (raw : Text) :
    (readTime fields raw).run = (readSlices fields raw).run.map fun ns => ns.bind naiveTime := by
  simp only [readTime, OptionT.run_bind]
  cases (readSlices fields raw).run with
  | none => rfl
  | some ns => cases ns <;> simp [Option.elimM]

theorem readTime_eq_none {fields : List ByteField}
    (hin : ∀ f ∈ fields, f.Within (byteLength raw)) :
    (readTime fields raw).run = none ↔ ¬Whole fields raw := by
  rw [run_readTime, Option.map_eq_none_iff, readSlices_eq_none hin]

theorem readTime_eq_some {fields : List ByteField} :
    (readTime fields raw).run = some (some t) ↔
      ∃ ns, Numbers fields raw ns ∧ naiveTime ns = some t := by
  rw [run_readTime]
  simp only [Option.map_eq_some_iff, Option.bind_eq_some_iff]
  constructor
  · rintro ⟨_, hread, ns, rfl, ht⟩
    exact ⟨ns, readSlices_eq_some.mp hread, ht⟩
  · rintro ⟨ns, hns, ht⟩
    exact ⟨some ns, readSlices_eq_some.mpr hns, ns, rfl, ht⟩

/-! ## The `Z`s at the end -/

theorem trimEndMatches_append (c : Char) (s : Text) :
    ∃ zs, s = trimEndMatches c s ++ zs ∧ ∀ d ∈ zs, d = c := by
  refine ⟨(s.reverse.takeWhile (· = c)).reverse, ?_, ?_⟩
  · unfold trimEndMatches trimStartMatches
    rw [← List.reverse_append, List.takeWhile_append_dropWhile, List.reverse_reverse]
  · intro d hd
    simpa using List.mem_takeWhile_imp (List.mem_reverse.mp hd)

theorem trimEndMatches_snoc (c : Char) (s : Text) :
    trimEndMatches c (s ++ [c]) = trimEndMatches c s := by
  simp [trimEndMatches, trimStartMatches]

theorem trimEndMatches_of_last (h : s.getLast? ≠ some c) : trimEndMatches c s = s := by
  unfold trimEndMatches trimStartMatches
  rw [← List.head?_reverse] at h
  cases hs : s.reverse with
  | nil => simp [List.reverse_eq_nil_iff.mp hs]
  | cons d l =>
    rw [hs, List.head?_cons, Ne, Option.some.injEq] at h
    rw [List.dropWhile_cons_of_neg (by simpa using h), ← hs, List.reverse_reverse]

theorem readTime_trimEndMatches (h : 15 ≤ byteLength (trimEndMatches 'Z' raw)) :
    readTime (dateFields ++ timeFields) (trimEndMatches 'Z' raw) =
      readTime (dateFields ++ timeFields) raw := by
  obtain ⟨zs, hzs, -⟩ := trimEndMatches_append 'Z' raw
  have hread := readSlices_append (t := zs) (allFields_within h)
  rw [← hzs] at hread
  unfold readTime
  rw [hread]

theorem byteLength_trimEndMatches_le (raw : Text) :
    byteLength (trimEndMatches 'Z' raw) ≤ byteLength raw := by
  obtain ⟨zs, hzs, -⟩ := trimEndMatches_append 'Z' raw
  have hbytes := congrArg byteLength hzs
  rw [byteLength_append] at hbytes
  omega

/-- Behind the seconds stands one `Z` only. -/
theorem digits_of_timeText (h : TimeText raw) : 15 ≤ byteLength (trimEndMatches 'Z' raw) := by
  obtain ⟨hlen, hlast, ns, t, hns, -⟩ := h
  obtain ⟨part, hpart, n, hn⟩ : ∃ part, byteSlice raw 13 15 = some part ∧
      ∃ n, parseU32 part = some n := by
    simp only [Numbers, dateFields, timeFields, List.cons_append, List.nil_append,
      List.forall₂_cons_left_iff] at hns
    obtain ⟨_, _, -, ⟨_, _, -, ⟨_, _, -, ⟨_, _, -, ⟨_, _, -, ⟨n, _, ⟨part, hpart, hn⟩, -⟩, -⟩, -⟩,
      -⟩, -⟩, -⟩ := hns
    exact ⟨part, hpart, n, hn⟩
  obtain ⟨u, v, rfl, hu, hp⟩ := byteSlice_eq_some.mp hpart
  have hv : byteLength v = 1 := by
    rw [byteLength_append, byteLength_append] at hlen
    omega
  obtain ⟨c, rfl, -⟩ := singleton_of_byteLength hv
  obtain rfl : c = 'Z' := by simpa using hlast
  have hne : (u ++ part).getLast? ≠ some 'Z' := by
    have hpart : part ≠ [] := by
      rintro rfl
      simp at hp
    rw [List.getLast?_append_of_ne_nil _ hpart]
    intro hZ
    have hdigit := isDigit_of_parseU32 hn 'Z' (List.mem_of_getLast? hZ)
    exact absurd hdigit (by decide)
  rw [trimEndMatches_snoc, trimEndMatches_of_last hne, byteLength_append]
  omega

/-- A date and time of RFC 3339 has a dash where a calendar has its month. -/
theorem numbers_of_rfc3339 (h : lib.parseRfc3339 raw = some t) :
    ¬Numbers (dateFields ++ timeFields) raw ns := by
  obtain ⟨y, rest, rfl, hy, hdigit, -, -⟩ := lib.rfc3339_shape raw t h
  have hbytes : byteLength y = 4 := by
    rw [byteLength_ascii fun c hc => utf8Size_of_isDigit (hdigit c hc), hy]
  intro hns
  simp only [Numbers, dateFields, timeFields, List.cons_append, List.forall₂_cons_left_iff] at hns
  obtain ⟨_, _, -, ⟨n, _, ⟨part, hpart, hn⟩, -⟩, -⟩ := hns
  have hshift := byteSlice_shift y ('-' :: rest) 0 2
  rw [hbytes] at hshift
  rw [hshift] at hpart
  obtain ⟨u, v, heq, hu, hp⟩ := byteSlice_eq_some.mp hpart
  obtain rfl := eq_nil_of_byteLength hu
  cases part with
  | nil => simp at hp
  | cons d part =>
    simp only [List.nil_append, List.cons_append, List.cons.injEq] at heq
    obtain ⟨rfl, -⟩ := heq
    exact absurd (isDigit_of_parseU32 hn '-' List.mem_cons_self) (by decide)

theorem length_of_rfc3339 (h : lib.parseRfc3339 raw = some t) :
    17 ≤ byteLength (trimEndMatches 'Z' raw) ∧ 20 ≤ byteLength raw := by
  obtain ⟨y, rest, hraw, hy, -, hcolon, hrest⟩ := lib.rfc3339_shape raw t h
  have hlen : raw.length = rest.length + 5 := by
    rw [hraw, List.length_append, List.length_cons]
    omega
  have hat : raw[16]? = some ':' := by
    rw [hraw, List.getElem?_append_right (by omega), hy, List.getElem?_cons_succ, hcolon]
  constructor
  · obtain ⟨zs, hzs, hall⟩ := trimEndMatches_append 'Z' raw
    by_contra hlt
    have hle := length_le_byteLength (trimEndMatches 'Z' raw)
    -- the colon before the seconds would be a `Z`
    rw [hzs, List.getElem?_append_right (by omega)] at hat
    exact absurd (hall ':' (List.mem_of_getElem? hat)) (by decide)
  · have hle := length_le_byteLength raw
    omega

/-! ## The cases of the readers -/

theorem normalizeIcsDt_date (h : byteLength (trimText value) = 8)
    (hdigit : (trimText value).all Char.isDigit = true) :
    normalizeIcsDt lib value = readTime dateFields (trimText value) :=
  if_pos ⟨h, hdigit⟩

theorem normalizeIcsDt_time (hlast : (trimText value).getLast? = some 'Z')
    (h : 15 ≤ byteLength (trimEndMatches 'Z' (trimText value))) :
    normalizeIcsDt lib value = readTime (dateFields ++ timeFields) (trimText value) := by
  have hle := byteLength_trimEndMatches_le (trimText value)
  unfold normalizeIcsDt
  rw [if_neg (by omega), if_pos ⟨by omega, hlast, h⟩, readTime_trimEndMatches h]

theorem normalizeIcsDt_other
    (hdate : ¬(byteLength (trimText value) = 8 ∧ (trimText value).all Char.isDigit = true))
    (htime : ¬((trimText value).getLast? = some 'Z' ∧
      15 ≤ byteLength (trimEndMatches 'Z' (trimText value)))) :
    (normalizeIcsDt lib value).run = some (lib.parseRfc3339 (trimText value)) := by
  unfold normalizeIcsDt
  rw [if_neg hdate, if_neg fun h => htime h.2]
  rfl

theorem parseIcalDt_time (h : byteLength (trimText value) = 16)
    (hlast : (trimText value).getLast? = some 'Z') :
    parseIcalDt lib value = readTime (dateFields ++ timeFields) (trimText value) :=
  if_pos ⟨h, hlast⟩

theorem parseIcalDt_date (h : byteLength (trimText value) = 8) :
    parseIcalDt lib value = readTime dateFields (trimText value) := by
  unfold parseIcalDt
  rw [if_neg (by omega), if_pos h]
  rfl

theorem parseIcalDt_other (hdate : byteLength (trimText value) ≠ 8)
    (htime : ¬(byteLength (trimText value) = 16 ∧ (trimText value).getLast? = some 'Z')) :
    (parseIcalDt lib value).run = some (lib.parseRfc3339 (trimText value)) := by
  unfold parseIcalDt
  rw [if_neg htime, if_neg hdate]
  rfl

/-! ## No panic -/

theorem normalizeIcsDt_returns (h : Uncut (trimText value)) :
    (normalizeIcsDt lib value).run ≠ none := by
  rcases Decidable.em
    (byteLength (trimText value) = 8 ∧ (trimText value).all Char.isDigit = true) with hdate | hdate
  · rw [normalizeIcsDt_date hdate.1 hdate.2, Ne,
      readTime_eq_none (dateFields_within (by omega)), not_not]
    exact h.date hdate.1
  rcases Decidable.em ((trimText value).getLast? = some 'Z' ∧
    15 ≤ byteLength (trimEndMatches 'Z' (trimText value))) with htime | htime
  · have hle := byteLength_trimEndMatches_le (trimText value)
    rw [normalizeIcsDt_time htime.1 htime.2, Ne,
      readTime_eq_none (allFields_within (by omega)), not_not]
    exact h.time ⟨htime.1, Or.inr htime.2⟩
  · rw [normalizeIcsDt_other hdate htime]
    simp

theorem parseIcalDt_returns (h : Uncut (trimText value)) :
    (parseIcalDt lib value).run ≠ none := by
  rcases Decidable.em (byteLength (trimText value) = 16 ∧
    (trimText value).getLast? = some 'Z') with htime | htime
  · rw [parseIcalDt_time htime.1 htime.2, Ne, readTime_eq_none (allFields_within (by omega)),
      not_not]
    exact h.time ⟨htime.2, Or.inl htime.1⟩
  rcases Decidable.em (byteLength (trimText value) = 8) with hdate | hdate
  · rw [parseIcalDt_date hdate, Ne, readTime_eq_none (dateFields_within (by omega)), not_not]
    exact h.date hdate
  · rw [parseIcalDt_other hdate htime]
    simp

/-- The two readers return exactly where no slice that one of them reaches cuts a character. -/
theorem returns_iff : (normalizeIcsDt lib value).run ≠ none ∧ (parseIcalDt lib value).run ≠ none ↔
    Uncut (trimText value) := by
  constructor
  · rintro ⟨hfeed, hdav⟩
    constructor
    · intro h
      rwa [parseIcalDt_date h, Ne, readTime_eq_none (dateFields_within (by omega)),
        not_not] at hdav
    · rintro ⟨hlast, h | h⟩
      · rwa [parseIcalDt_time h hlast, Ne, readTime_eq_none (allFields_within (by omega)),
          not_not] at hdav
      · have hle := byteLength_trimEndMatches_le (trimText value)
        rwa [normalizeIcsDt_time hlast h, Ne, readTime_eq_none (allFields_within (by omega)),
          not_not] at hfeed
  · intro h
    exact ⟨normalizeIcsDt_returns h, parseIcalDt_returns h⟩

/-! ## The same time -/

variable {a b : UtcTime}

/-- What both accept has one of three forms, and is read in the same way. -/
theorem bothRead_of_accepted (hfeed : (normalizeIcsDt lib value).run = some (some a))
    (hdav : (parseIcalDt lib value).run = some (some b)) :
    BothRead lib (trimText value) ∧ a = b := by
  rcases Decidable.em
    (byteLength (trimText value) = 8 ∧ (trimText value).all Char.isDigit = true) with hdate | hdate
  · -- a date to both
    rw [normalizeIcsDt_date hdate.1 hdate.2] at hfeed
    rw [parseIcalDt_date hdate.1, hfeed] at hdav
    obtain ⟨ns, hns, ht⟩ := readTime_eq_some.mp hfeed
    exact ⟨Or.inl ⟨hdate.1, hdate.2, ns, a, hns, ht⟩, by simpa using hdav⟩
  rcases Decidable.em ((trimText value).getLast? = some 'Z' ∧
    15 ≤ byteLength (trimEndMatches 'Z' (trimText value))) with htime | htime
  · have hle := byteLength_trimEndMatches_le (trimText value)
    rw [normalizeIcsDt_time htime.1 htime.2] at hfeed
    obtain ⟨ns, hns, ht⟩ := readTime_eq_some.mp hfeed
    rcases Decidable.em (byteLength (trimText value) = 16) with h16 | h16
    · rw [parseIcalDt_time h16 htime.1, hfeed] at hdav
      exact ⟨Or.inr (Or.inl ⟨h16, htime.1, ns, a, hns, ht⟩), by simpa using hdav⟩
    · -- longer ones are no date and time of RFC 3339
      rw [parseIcalDt_other (by omega) fun h => h16 h.1, Option.some.injEq] at hdav
      exact absurd hns (numbers_of_rfc3339 hdav)
  · rw [normalizeIcsDt_other hdate htime, Option.some.injEq] at hfeed
    obtain ⟨h17, h20⟩ := length_of_rfc3339 hfeed
    rw [parseIcalDt_other (by omega) (by omega), hfeed] at hdav
    refine ⟨Or.inr (Or.inr ⟨fun hlast => htime ⟨hlast, by omega⟩, a, hfeed⟩), ?_⟩
    simpa using hdav

theorem accepted_of_bothRead (h : BothRead lib (trimText value)) :
    ∃ t, (normalizeIcsDt lib value).run = some (some t) ∧
      (parseIcalDt lib value).run = some (some t) := by
  rcases h with ⟨hlen, hdigit, ns, t, hns, ht⟩ | h | ⟨hlast, t, ht⟩
  · have hread := readTime_eq_some.mpr ⟨ns, hns, ht⟩
    refine ⟨t, ?_, ?_⟩
    · rw [normalizeIcsDt_date hlen hdigit, hread]
    · rw [parseIcalDt_date hlen, hread]
  · have h15 := digits_of_timeText h
    obtain ⟨hlen, hlast, ns, t, hns, ht⟩ := h
    have hread := readTime_eq_some.mpr ⟨ns, hns, ht⟩
    refine ⟨t, ?_, ?_⟩
    · rw [normalizeIcsDt_time hlast h15, hread]
    · rw [parseIcalDt_time hlen hlast, hread]
  · obtain ⟨-, h20⟩ := length_of_rfc3339 ht
    refine ⟨t, ?_, ?_⟩
    · rw [normalizeIcsDt_other (by omega) fun h => hlast h.1, ht]
    · rw [parseIcalDt_other (by omega) (by omega), ht]

/-! ## The rows -/

theorem startLine_eq (lib : CalendarLib) (namePart value : Text) :
    startLine lib namePart value =
      { dtstart := some (trimText value),
        isAllDay := startsAllDay lib.toTextLib namePart (trimText value) } := by
  simp [startLine, VeventFields.set]

theorem feedTimes_startLine (lib : CalendarLib) (namePart value : Text) :
    feedTimes lib (startLine lib namePart value) =
      (normalizeIcsDt lib value).run.map fun t =>
        ⟨t, none, startsAllDay lib.toTextLib namePart (trimText value)⟩ := by
  have htrim : normalizeIcsDt lib (trimText value) = normalizeIcsDt lib value := by
    unfold normalizeIcsDt
    rw [trimText_trimText]
  rw [startLine_eq]
  simp only [feedTimes, readOptional, htrim]
  cases (normalizeIcsDt lib value).run with
  | none => rfl
  | some t => rfl

theorem davTimes_startLine (lib : CalendarLib) (namePart value : Text) :
    davTimes lib (startLine lib namePart value) =
      (parseIcalDt lib value).run.map fun t => ⟨t, none, false⟩ := by
  have htrim : parseIcalDt lib (trimText (trimText value)) = parseIcalDt lib value := by
    unfold parseIcalDt
    rw [trimText_trimText, trimText_trimText]
  rw [startLine_eq]
  simp only [davTimes, normalizeIcalDt, readOptional, htrim]
  cases (parseIcalDt lib value).run with
  | none => rfl
  | some t => rfl

/-- The times are the same; whether the event is all day is not, where it is. -/
theorem same_iff (lib : CalendarLib) (namePart value : Text) :
    (∀ feed dav a b, feedTimes lib (startLine lib namePart value) = some feed →
      davTimes lib (startLine lib namePart value) = some dav →
      feed.dtstart = some a → dav.dtstart = some b → a = b ∧ feed.isAllDay = dav.isAllDay) ↔
    (startsAllDay lib.toTextLib namePart (trimText value) = true →
      ¬BothRead lib (trimText value)) := by
  rw [feedTimes_startLine, davTimes_startLine]
  constructor
  · intro hsame hallDay hboth
    obtain ⟨t, hfeed, hdav⟩ := accepted_of_bothRead hboth
    rw [hfeed, hdav] at hsame
    have hflag := (hsame _ _ t t rfl rfl rfl rfl).2
    rw [hallDay] at hflag
    cases hflag
  · intro hnot feed dav a b hfeed hdav ha hb
    obtain ⟨feedStart, hread, rfl⟩ := Option.map_eq_some_iff.mp hfeed
    obtain ⟨davStart, hread', rfl⟩ := Option.map_eq_some_iff.mp hdav
    obtain rfl : feedStart = some a := ha
    obtain rfl : davStart = some b := hb
    obtain ⟨hboth, heq⟩ := bothRead_of_accepted hread hread'
    refine ⟨heq, ?_⟩
    cases hflag : startsAllDay lib.toTextLib namePart (trimText value) with
    | false => rfl
    | true => exact absurd hboth (hnot hflag)

end Agreement

/-- The two paths agree exactly where no slice cuts a character and an all-day start is not read by
both. -/
theorem pathsAgree_iff (lib : CalendarLib) (namePart value : Text) :
    PathsAgree lib namePart value ↔
      Uncut (trimText value) ∧ (startsAllDay lib.toTextLib namePart (trimText value) = true →
        ¬BothRead lib (trimText value)) := by
  have hreturns : Uncut (trimText value) ↔
      (normalizeIcsDt lib value).run ≠ none ∧ (parseIcalDt lib value).run ≠ none :=
    returns_iff.symm
  rw [hreturns, ← same_iff]
  constructor
  · rintro ⟨hfeed, hdav, hsame⟩
    exact ⟨⟨hfeed, hdav⟩, hsame⟩
  · rintro ⟨⟨hfeed, hdav⟩, hsame⟩
    exact ⟨hfeed, hdav, hsame⟩

/-- A year of four digits begins what the plain library reads. -/
theorem shape_of_readZulu {s : Text} {t : UtcTime} (h : readZulu s = some t) :
    ∃ y rest, s = y ++ '-' :: rest ∧ y.length = 4 ∧ (∀ c ∈ y, c.isDigit = true) ∧
      rest[11]? = some ':' ∧ 15 ≤ rest.length := by
  unfold readZulu at h
  split at h
  · rename_i a b c d e f hdrop
    simp only [Option.bind_eq_bind, Option.bind_eq_some_iff] at h
    obtain ⟨date, hdate, -⟩ := h
    obtain ⟨y1, y2, y3, y4, m1, m2, d1, d2, htake⟩ := shape_of_dashedDate hdate
    rw [htake] at hdate
    have hs := List.take_append_drop 10 s
    rw [htake, hdrop] at hs
    refine ⟨[y1, y2, y3, y4], [m1, m2, '-', d1, d2, 'T', a, b, ':', c, d, ':', e, f, 'Z'],
      hs.symm, rfl, ?_, rfl, Nat.le_refl 15⟩
    simp only [dashedDate, Option.bind_eq_bind, Option.bind_eq_some_iff] at hdate
    obtain ⟨year, hyear, -⟩ := hdate
    intro x hx
    obtain ⟨k, hk⟩ := digits_of_readNat hyear x hx
    unfold digitValue at hk
    simp only [Option.ite_none_right_eq_some] at hk
    exact hk.1
  · cases h

/-- A library that knows the plainest forms only. -/
def plainDates : CalendarLib where
  toTextLib := plainLib
  rfc3339_shape := fun _ _ h => shape_of_readZulu (Option.filter_eq_some_iff.mp h).1

/-- A euro sign across the month, and a start that is all day. -/
theorem not_pathsAgree :
    ¬PathsAgree plainDates "DTSTART".toList "2026€1".toList ∧
    ¬PathsAgree plainDates "DTSTART;VALUE=DATE".toList "20260907".toList := by
  constructor
  · intro h
    exact h.dav_returns (by decide +kernel)
  · intro h
    have hflag := (h.same ⟨some ⟨⟨2026, 9, 7⟩, 0, 0, 0, 0⟩, none, true⟩
      ⟨some ⟨⟨2026, 9, 7⟩, 0, 0, 0, 0⟩, none, false⟩ _ _ (by decide +kernel) (by decide +kernel)
      rfl rfl).2
    cases hflag

end Lyra.Pim
