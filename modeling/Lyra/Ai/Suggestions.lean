import Lyra.Ai.Replies
import Lyra.Dav.CalendarDates

/-!
# Suggested events

A suggestion is shown in a dialog that posts it unchanged, and `build_vevent` makes the event of
it.  `parse_event_suggestion` takes the form of a date or of a time from the texts, but the flag of
an all-day event from the reply as well.

* `accepted_iff`: when the writer accepts one;
* `creatable_iff`: the replies all of whose suggestions can be created.
-/

namespace Lyra.Ai

open Lyra.Lib Lyra.Pim
open Lyra.Backup (JsonValue)

/-! ## What a suggestion is for -/

/-- The event that the dialog posts. -/
def EventSuggestion.newEvent (s : EventSuggestion) : NewEvent where
  summary := s.summary
  dtstart := s.dtstart
  dtend := s.dtend
  isAllDay := s.isAllDay
  location := s.location
  description := s.description

/-- Earlier, by the first number that differs. -/
def earlier : List Int → List Int → Bool
  | a :: as', b :: bs => decide (a < b) || (decide (a = b) && earlier as' bs)
  | _, _ => false

def dateNumbers (d : Date) : List Int := [d.year, d.month, d.day]

def timeNumbers (t : UtcTime) : List Int :=
  dateNumbers t.date ++ [(t.hour : Int), t.minute, t.second, t.nanos]

/-- What `stop` says is not before what `start` says. -/
def NotBefore {α : Type} (parse : Text → Option α) (numbers : α → List Int) (start stop : Text) :
    Prop :=
  ∀ a b, parse start = some a → parse stop = some b → earlier (numbers b) (numbers a) = false

section Suggestions

variable {η : Type} (json : JsonReader η) (lib : CalendarLib)

/-- The end is not before the start, as times or as dates. -/
def EventSuggestion.Ordered (s : EventSuggestion) : Prop :=
  ∀ e ∈ s.dtend,
    if s.isAllDay then NotBefore lib.parseYmd dateNumbers s.dtstart e
    else NotBefore lib.parseRfc3339 timeNumbers s.dtstart e

/-- Every suggestion of the reply is accepted as it is, and ends no earlier than it starts. -/
def Creatable (now : UtcTime) (uid : Uuid) (reply : Text) : Prop :=
  ∀ s, (parseEventSuggestion json lib.toTextLib reply).run = some (some s) →
    (∃ text, buildVevent lib.toTextLib now uid s.newEvent = .ok text) ∧ s.Ordered lib

/-! ## The fields of a reply -/

/-- The text is a date, or a time, and this is how it is passed on. -/
def IsDate (raw s : Text) : Prop := normalizeDt lib.toTextLib raw = some (s, none)

def IsTime (raw s : Text) : Prop := normalizeDt lib.toTextLib raw = some (s, some s)

/-- The fields of an object that an event is made of. -/
structure Offers (v : JsonValue η) (rawStart : Text) (rawEnd : Option Text) (allDay : Bool) :
    Prop where
  summary : ∃ summary, (field "summary" v).bind asStr = some summary ∧ trimText summary ≠ []
  start : (field "start" v).bind asStr = some rawStart
  start_reads : (normalizeDt lib.toTextLib rawStart).isSome
  stop : (field "end" v).bind asStr = rawEnd
  stop_reads : ∀ raw ∈ rawEnd, (normalizeDt lib.toTextLib raw).isSome
  allDay : ((field "allDay" v).bind asBool).getD false = allDay

/-- Dashes where `YYYY-MM-DD` has them. -/
def Dashed (s : Text) : Prop := (utf8 s)[4]? = some dash ∧ (utf8 s)[7]? = some dash

/-- The flag, the start and the end fit each other. -/
structure FormsAgree (rawStart : Text) (rawEnd : Option Text) (allDay : Bool) : Prop where
  time : ∀ s, IsTime lib rawStart s → allDay = false ∧
    ∀ raw ∈ rawEnd, ∀ e, IsTime lib raw e → NotBefore lib.parseRfc3339 timeNumbers s e
  date : ∀ s, IsDate lib rawStart s → Dashed s ∧
    ∀ raw ∈ rawEnd, ∀ e, IsDate lib raw e → Dashed e ∧ NotBefore lib.parseYmd dateNumbers s e

/-- The object of a reply. -/
def objectOf (reply : Text) (v : JsonValue η) : Prop :=
  ∃ text, (bracedText reply).run = some (some text) ∧ json.fromStr text = some v

end Suggestions

/-! ## Normalised texts -/

section Forms

variable {η : Type} {json : JsonReader η} {lib : CalendarLib} {now : UtcTime} {uid : Uuid}
  {raw s e rawStart : Text} {rawEnd : Option Text} {allDay : Bool} {p : Text × Option Text}
  {v : JsonValue η}

theorem length_of_time (h : (lib.parseRfc3339 s).isSome) : 20 ≤ (utf8 s).length := by
  obtain ⟨t, ht⟩ := Option.isSome_iff_exists.mp h
  obtain ⟨y, rest, rfl, hy, -, -, hrest⟩ := lib.rfc3339_shape s t ht
  have hlen := length_utf8_le (y ++ '-' :: rest)
  rw [List.length_append, List.length_cons] at hlen
  omega

/-- A text is passed on as a date of ten bytes or as a time. -/
theorem normalizeDt_cases (h : normalizeDt lib.toTextLib raw = some p) :
    (IsDate lib raw p.1 ∧ p.2 = none ∧ (utf8 p.1).length = 10 ∧ (lib.parseYmd p.1).isSome) ∨
      IsTime lib raw p.1 ∧ p.2 = some p.1 ∧ (lib.parseRfc3339 p.1).isSome := by
  have horig := h
  unfold normalizeDt at h
  simp only at h
  split at h
  · rename_i hlen
    simp only [Option.ite_none_right_eq_some, Option.some.injEq] at h
    obtain ⟨hparse, rfl⟩ := h
    exact .inl ⟨horig, rfl, hlen, hparse⟩
  · split at h
    · rename_i hparse
      obtain rfl := Option.some.inj h
      exact .inr ⟨horig, rfl, hparse⟩
    · simp only [Option.ite_none_right_eq_some, Option.some.injEq] at h
      obtain ⟨hparse, rfl⟩ := h
      exact .inr ⟨horig, rfl, hparse⟩

theorem date_facts (h : IsDate lib raw s) : (utf8 s).length = 10 ∧ (lib.parseYmd s).isSome := by
  rcases normalizeDt_cases h with ⟨-, -, hlen, hparse⟩ | ⟨-, hsome, -⟩
  · exact ⟨hlen, hparse⟩
  · cases hsome

theorem time_facts (h : IsTime lib raw s) : (lib.parseRfc3339 s).isSome := by
  rcases normalizeDt_cases h with ⟨-, hnone, -⟩ | ⟨-, -, hparse⟩
  · cases hnone
  · exact hparse

/-! ## The writer -/

theorem icalDate_accepts (h : IsDate lib raw s) :
    (∃ text, icalDate lib.toTextLib s = .ok text) ↔ Dashed s := by
  obtain ⟨hlen, hparse⟩ := date_facts h
  obtain ⟨d, hd⟩ := Option.isSome_iff_exists.mp hparse
  constructor
  · rintro ⟨text, htext⟩
    obtain ⟨-, h4, h7, -⟩ := icalDate_eq_ok.mp htext
    exact ⟨h4, h7⟩
  · rintro ⟨h4, h7⟩
    exact ⟨_, icalDate_eq_ok.mpr ⟨hlen, h4, h7, d, hd, rfl⟩⟩

/-- A time is longer than a date. -/
theorem icalDate_rejects (h : IsTime lib raw s) (text : Text) :
    icalDate lib.toTextLib s ≠ .ok text := by
  intro htext
  have hlen := length_of_time (time_facts h)
  have hten := (icalDate_eq_ok.mp htext).1
  omega

theorem icalUtc_accepts (h : IsTime lib raw s) : ∃ text, icalUtc lib.toTextLib s = .ok text := by
  obtain ⟨t, ht⟩ := Option.isSome_iff_exists.mp (time_facts h)
  exact ⟨_, icalUtc_eq_ok.mpr ⟨t, ht, rfl⟩⟩

/-- The writer accepts an event with a title where it accepts the start and the end. -/
theorem buildVevent_accepts {e : NewEvent} (hsummary : trimText e.summary ≠ []) :
    (∃ text, buildVevent lib.toTextLib now uid e = .ok text) ↔
      (∃ text, icalValue lib.toTextLib e e.dtstart = .ok text) ∧
        ∀ d ∈ e.givenEnd, ∃ text, icalValue lib.toTextLib e d = .ok text := by
  unfold buildVevent endLine
  rw [if_neg (by simpa using hsummary)]
  cases icalValue lib.toTextLib e e.dtstart with
  | error err => simp [bind, Except.bind]
  | ok start =>
    cases e.givenEnd with
    | none => simp [bind, Except.bind, pure, Except.pure]
    | some d =>
      cases hd : icalValue lib.toTextLib e d with
      | error err => simp [bind, Except.bind, Except.map, hd]
      | ok stop => simp [bind, Except.bind, Except.map, pure, Except.pure, hd]

/-! ## Ends -/

theorem endOf_isSome {timedStart : Bool} : (endOf lib.toTextLib timedStart rawEnd).isSome ↔
    ∀ raw ∈ rawEnd, (normalizeDt lib.toTextLib raw).isSome := by
  cases rawEnd with
  | none => simp [endOf]
  | some raw => simp [endOf]

/-- The end of an event on days is a date, that of a timed one a time. -/
theorem mem_endOf {timedStart : Bool} {dtend : Option Text}
    (h : endOf lib.toTextLib timedStart rawEnd = some dtend) :
    e ∈ dtend ↔ ∃ raw ∈ rawEnd, if timedStart then IsTime lib raw e else IsDate lib raw e := by
  cases rawEnd with
  | none =>
    obtain rfl := Option.some.inj h
    simp
  | some raw =>
    obtain ⟨⟨e', timed⟩, hp, hdtend⟩ := Option.map_eq_some_iff.mp h
    have hform : timed = none ∨ timed = some e' := by
      rcases normalizeDt_cases hp with ⟨-, hnone, -⟩ | ⟨-, hsome, -⟩
      · exact .inl hnone
      · exact .inr hsome
    simp only [IsTime, IsDate, Option.mem_def, Option.some.injEq, exists_eq_left', hp, ← hdtend,
      Prod.mk.injEq]
    rcases hform with rfl | rfl
    · cases timedStart <;> simp
    · cases timedStart <;> simp +contextual [eq_comm]

/-! ## Suggestions -/

/-- The suggestion that is made of an object. -/
def made (v : JsonValue η) (p : Text × Option Text) (dtend : Option Text) (allDay : Bool) :
    EventSuggestion where
  summary := trimText (((field "summary" v).bind asStr).getD [])
  dtstart := p.1
  dtend := dtend
  isAllDay := p.2.isNone || allDay
  location := (field "location" v).bind asStr
  description := (field "description" v).bind asStr

variable {dtend : Option Text}

theorem eventOf_offers (h : Offers lib v rawStart rawEnd allDay)
    (hp : normalizeDt lib.toTextLib rawStart = some p)
    (hend : endOf lib.toTextLib p.2.isSome rawEnd = some dtend) :
    eventOf lib.toTextLib v = some (made v p dtend allDay) := by
  obtain ⟨summary, hsummary, hne⟩ := h.summary
  unfold eventOf made
  simp only [hsummary, h.start, h.stop, h.allDay, Option.bind_eq_bind, Option.bind_some,
    Option.getD_some, hp, hend]
  rw [if_neg (by simpa using hne)]
  rfl

theorem offers_of_eventOf {s : EventSuggestion} (h : eventOf lib.toTextLib v = some s) :
    ∃ rawStart rawEnd allDay p dtend, Offers lib v rawStart rawEnd allDay ∧
      normalizeDt lib.toTextLib rawStart = some p ∧
      endOf lib.toTextLib p.2.isSome rawEnd = some dtend ∧ s = made v p dtend allDay := by
  have horig := h
  unfold eventOf at h
  simp only [Option.bind_eq_bind, Option.bind_eq_some_iff] at h
  obtain ⟨summary, hsummary, h⟩ := h
  split at h
  · cases h
  · rename_i hne
    simp only [Option.bind_eq_some_iff] at h
    obtain ⟨rawStart, hstart, p, hp, dtend, hend, -⟩ := h
    have hoffers : Offers lib v rawStart ((field "end" v).bind asStr)
        (((field "allDay" v).bind asBool).getD false) :=
      { summary := ⟨summary, Option.bind_eq_some_iff.mpr hsummary, by simpa using hne⟩
        start := Option.bind_eq_some_iff.mpr hstart
        start_reads := by rw [hp]; rfl
        stop := rfl
        stop_reads := endOf_isSome.mp (by rw [hend]; rfl)
        allDay := rfl }
    have hmade := eventOf_offers hoffers hp hend
    exact ⟨_, _, _, p, dtend, hoffers, hp, hend, Option.some.inj (horig.symm.trans hmade)⟩

theorem made_summary (h : Offers lib v rawStart rawEnd allDay) :
    trimText (made v p dtend allDay).newEvent.summary ≠ [] := by
  obtain ⟨summary, hsummary, hne⟩ := h.summary
  have hmade : (made v p dtend allDay).newEvent.summary = trimText summary := by
    simp [made, EventSuggestion.newEvent, hsummary]
  rw [hmade, trimText_trimText]
  exact hne

/-- A suggestion on days is written where its texts have their dashes. -/
theorem date_creatable (h : Offers lib v rawStart rawEnd allDay) (hs : IsDate lib rawStart s)
    (hend : endOf lib.toTextLib false rawEnd = some dtend) :
    ((∃ text, buildVevent lib.toTextLib now uid (made v (s, none) dtend allDay).newEvent =
        .ok text) ∧ (made v (s, none) dtend allDay).Ordered lib) ↔
      FormsAgree lib rawStart rawEnd allDay := by
  have hmem : ∀ e, e ∈ dtend ↔ ∃ raw ∈ rawEnd, IsDate lib raw e := fun e => mem_endOf hend
  rw [buildVevent_accepts (made_summary h)]
  have hstart : (∃ text, icalValue lib.toTextLib (made v (s, none) dtend allDay).newEvent
      (made v (s, none) dtend allDay).newEvent.dtstart = .ok text) ↔ Dashed s := icalDate_accepts hs
  have hstop : (∀ d ∈ (made v (s, none) dtend allDay).newEvent.givenEnd, ∃ text,
      icalValue lib.toTextLib (made v (s, none) dtend allDay).newEvent d = .ok text) ↔
      ∀ raw ∈ rawEnd, ∀ e, IsDate lib raw e → Dashed e := by
    constructor
    · intro hall raw hraw e he
      exact (icalDate_accepts he).mp (hall e ((hmem e).mpr ⟨raw, hraw, he⟩))
    · intro hall d hd
      obtain ⟨raw, hraw, he⟩ := (hmem d).mp hd
      exact (icalDate_accepts he).mpr (hall raw hraw d he)
  have hordered : (made v (s, none) dtend allDay).Ordered lib ↔
      ∀ raw ∈ rawEnd, ∀ e, IsDate lib raw e → NotBefore lib.parseYmd dateNumbers s e := by
    constructor
    · intro hall raw hraw e he
      exact hall e ((hmem e).mpr ⟨raw, hraw, he⟩)
    · intro hall e he
      obtain ⟨raw, hraw, he⟩ := (hmem e).mp he
      exact hall raw hraw e he
  rw [hstart, hstop, hordered]
  constructor
  · rintro ⟨⟨hdashed, hdashes⟩, hnot⟩
    refine ⟨fun t ht => ?_, fun t ht => ?_⟩
    · exact absurd (hs.symm.trans ht) (by simp)
    · obtain rfl : s = t := (Prod.mk.inj (Option.some.inj (hs.symm.trans ht))).1
      exact ⟨hdashed, fun raw hraw e he => ⟨hdashes raw hraw e he, hnot raw hraw e he⟩⟩
  · intro hforms
    obtain ⟨hdashed, hrest⟩ := hforms.date s hs
    exact ⟨⟨hdashed, fun raw hraw e he => (hrest raw hraw e he).1⟩,
      fun raw hraw e he => (hrest raw hraw e he).2⟩

/-- A timed suggestion is written where the reply does not flag it. -/
theorem time_creatable (h : Offers lib v rawStart rawEnd allDay) (hs : IsTime lib rawStart s)
    (hend : endOf lib.toTextLib true rawEnd = some dtend) :
    ((∃ text, buildVevent lib.toTextLib now uid (made v (s, some s) dtend allDay).newEvent =
        .ok text) ∧ (made v (s, some s) dtend allDay).Ordered lib) ↔
      FormsAgree lib rawStart rawEnd allDay := by
  have hmem : ∀ e, e ∈ dtend ↔ ∃ raw ∈ rawEnd, IsTime lib raw e := fun e => mem_endOf hend
  rw [buildVevent_accepts (made_summary h)]
  cases allDay with
  | true =>
    constructor
    · rintro ⟨⟨⟨text, htext⟩, -⟩, -⟩
      exact absurd htext (icalDate_rejects hs text)
    · intro hforms
      exact absurd (hforms.time s hs).1 (by decide)
  | false =>
    have hstart : ∃ text, icalValue lib.toTextLib (made v (s, some s) dtend false).newEvent
        (made v (s, some s) dtend false).newEvent.dtstart = .ok text := icalUtc_accepts hs
    have hstop : ∀ d ∈ (made v (s, some s) dtend false).newEvent.givenEnd, ∃ text,
        icalValue lib.toTextLib (made v (s, some s) dtend false).newEvent d = .ok text := by
      intro d hd
      have hfilter : dtend.filter (fun s => !(trimText s).isEmpty) = some d := hd
      obtain ⟨raw, -, he⟩ := (hmem d).mp (Option.filter_eq_some_iff.mp hfilter).1
      exact icalUtc_accepts he
    have hordered : (made v (s, some s) dtend false).Ordered lib ↔
        ∀ raw ∈ rawEnd, ∀ e, IsTime lib raw e → NotBefore lib.parseRfc3339 timeNumbers s e := by
      constructor
      · intro hall raw hraw e he
        exact hall e ((hmem e).mpr ⟨raw, hraw, he⟩)
      · intro hall e he
        obtain ⟨raw, hraw, he⟩ := (hmem e).mp he
        exact hall raw hraw e he
    rw [and_iff_right ⟨hstart, hstop⟩, hordered]
    constructor
    · intro hnot
      refine ⟨fun t ht => ?_, fun t ht => ?_⟩
      · obtain rfl : s = t := (Prod.mk.inj (Option.some.inj (hs.symm.trans ht))).1
        exact ⟨rfl, hnot⟩
      · exact absurd (hs.symm.trans ht) (by simp)
    · intro hforms
      exact (hforms.time s hs).2

theorem offered_creatable (h : Offers lib v rawStart rawEnd allDay)
    (hp : normalizeDt lib.toTextLib rawStart = some p)
    (hend : endOf lib.toTextLib p.2.isSome rawEnd = some dtend) :
    ((∃ text, buildVevent lib.toTextLib now uid (made v p dtend allDay).newEvent = .ok text) ∧
        (made v p dtend allDay).Ordered lib) ↔
      FormsAgree lib rawStart rawEnd allDay := by
  obtain ⟨s, timed⟩ := p
  rcases normalizeDt_cases hp with ⟨hdate, hnone, -⟩ | ⟨htime, hsome, -⟩
  · obtain rfl : timed = none := hnone
    exact date_creatable h hdate hend
  · obtain rfl : timed = some s := hsome
    exact time_creatable h htime hend

end Forms

/-- All suggestions of a reply can be created exactly where the flag, the start and the end that it
offers fit each other. -/
theorem creatable_iff {η : Type} (json : JsonReader η) (lib : CalendarLib) (now : UtcTime)
    (uid : Uuid) (reply : Text) :
    Creatable json lib now uid reply ↔
      ∀ v rawStart rawEnd allDay, objectOf json reply v → Offers lib v rawStart rawEnd allDay →
        FormsAgree lib rawStart rawEnd allDay := by
  have hrun : ∀ s, (parseEventSuggestion json lib.toTextLib reply).run = some (some s) ↔
      ∃ v, objectOf json reply v ∧ eventOf lib.toTextLib v = some s := by
    intro s
    rw [run_parseEventSuggestion]
    unfold objectOf
    rcases (bracedText reply).run with - | - | text
    · simp
    · simp
    · simp [Option.bind_eq_some_iff]
  constructor
  · intro h v rawStart rawEnd allDay hobject hoffers
    obtain ⟨p, hp⟩ := Option.isSome_iff_exists.mp hoffers.start_reads
    have hisSome : (endOf lib.toTextLib p.2.isSome rawEnd).isSome :=
      endOf_isSome.mpr hoffers.stop_reads
    obtain ⟨dtend, hend⟩ := Option.isSome_iff_exists.mp hisSome
    exact (offered_creatable hoffers hp hend).mp
      (h _ ((hrun _).mpr ⟨v, hobject, eventOf_offers hoffers hp hend⟩))
  · intro h s hs
    obtain ⟨v, hobject, hevent⟩ := (hrun s).mp hs
    obtain ⟨rawStart, rawEnd, allDay, p, dtend, hoffers, hp, hend, rfl⟩ := offers_of_eventOf hevent
    exact (offered_creatable hoffers hp hend).mpr (h v rawStart rawEnd allDay hobject hoffers)

def flaggedReply : Text :=
  "\x7b\"summary\":\"Review\",\"start\":\"2026-09-11T06:00:00Z\",\"allDay\":true\x7d".toList

/-- A reader of JSON that knows one object. -/
def flaggedReader : JsonReader Unit where
  fromStr s :=
    if s = flaggedReply then
      some (.object [("summary".toList, .string "Review".toList),
        ("start".toList, .string "2026-09-11T06:00:00Z".toList), ("allDay".toList, .bool true)])
    else none
  asI64 _ := none

/-- A time that the reply flags as all day is suggested, and the writer wants a date. -/
theorem flagged_time_not_creatable :
    ¬Creatable flaggedReader plainDates exampleNow exampleUid flaggedReply := by
  intro h
  obtain ⟨⟨text, htext⟩, -⟩ := h
    ⟨"Review".toList, "2026-09-11T06:00:00Z".toList, none, true, none, none⟩ (by decide +kernel)
  have hrejected : (icalDate plainDates.toTextLib "2026-09-11T06:00:00Z".toList).isOk = false := by
    decide +kernel
  obtain ⟨⟨value, hvalue⟩, -⟩ := (buildVevent_accepts (by decide +kernel)).mp ⟨text, htext⟩
  have hdate : icalDate plainDates.toTextLib "2026-09-11T06:00:00Z".toList = .ok value := hvalue
  rw [hdate] at hrejected
  cases hrejected

end Lyra.Ai
