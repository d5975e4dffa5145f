import Lyra.Lib.Traces
import Lyra.Store.Schema
import Mathlib.Data.List.Flatten
import Mathlib.Data.List.Nodup

/-!
# Event reminders

`use-event-notifications.ts` polls the calendars and the subscriptions, and
`event-notifications.ts` decides what is announced: the events around their start that the stored
baseline does not name.  Where the baseline is empty a poll fills it and announces nothing.

* `length_timesOf_le_one`: nothing is announced twice;
* `timesOf_of_heeded`: an event is announced once if it is seen, and not by the first poll that
  sees any;
* `remindedOnce_iff`: so the reminders fire exactly for those.
-/

namespace Lyra.Reminders

open Lyra.Lib

/-! ## The sources -/

def minute : Int := 60000

/-- A stored event; instants are in milliseconds. -/
structure ReminderEvent where
  id : Text
  dtstart : Option Int
  dtend : Option Int
  isAllDay : Bool
  deriving DecidableEq

/-- The events of every calendar and of every subscription, under the ids of their rows. -/
structure Sources where
  calendars : List (List ReminderEvent)
  subscriptions : List (List ReminderEvent)
  ids : ((calendars.flatten ++ subscriptions.flatten).map ReminderEvent.id).Nodup

def Sources.events (src : Sources) : List ReminderEvent :=
  src.calendars.flatten ++ src.subscriptions.flatten

/-- `list_events`; the end of the range bounds the end of an event. -/
def listEvents (start stop : Int) (rows : List ReminderEvent) : List ReminderEvent :=
  rows.filter fun e => e.dtstart.any (start ≤ ·) && e.dtend.all (· ≤ stop)

/-- `list_subscription_events`; both bound the start. -/
def listSubscriptionEvents (start stop : Int) (rows : List ReminderEvent) : List ReminderEvent :=
  rows.filter fun e => e.dtstart.any fun s => start ≤ s && s < stop

def collectEvents (src : Sources) (start stop : Int) : List ReminderEvent :=
  src.calendars.flatMap (listEvents start stop) ++
    src.subscriptions.flatMap (listSubscriptionEvents start stop)

/-! ## The decision -/

def eventWindowBefore : Int := 15 * minute

def eventWindowAfter : Int := 30 * minute

def baselineTtl : Int := 24 * 60 * minute

def eventsInReminderWindow (events : List ReminderEvent) (now : Int) : List ReminderEvent :=
  events.filter fun e => !e.isAllDay &&
    e.dtstart.any fun s => now - eventWindowAfter ≤ s && s ≤ now + eventWindowBefore

/-- The ids that were announced, and when. -/
abbrev EventBaseline := List (Text × Int)

def EventBaseline.has (b : EventBaseline) (id : Text) : Bool := b.any (·.1 == id)

/-- `next[ev.id] = now` for the events of a list. -/
def EventBaseline.record (b : EventBaseline) (now : Int) : List ReminderEvent → EventBaseline
  | [] => b
  | e :: events => EventBaseline.record ((e.id, now) :: b.filter (·.1 != e.id)) now events

/-- `writeEventBaseline` drops what is older than a day. -/
def writeEventBaseline (b : EventBaseline) (now : Int) : EventBaseline :=
  b.filter fun entry => now - entry.2 < baselineTtl

structure DueReminders where
  notify : List ReminderEvent
  seed : Bool

def dueReminders (events : List ReminderEvent) (b : EventBaseline) (now : Int) : DueReminders :=
  let inWindow := eventsInReminderWindow events now
  let firstRun := b.isEmpty
  { notify := if firstRun then [] else inWindow.filter fun e => !b.has e.id
    seed := firstRun }

/-! ## The polls -/

def maxPerPoll : Nat := 3

/-- One call of `poll`; it may find the notifications off. -/
structure Visit where
  now : Int
  enabled : Bool
  granted : Bool
  signedIn : Bool

def fetched (src : Sources) (now : Int) : List ReminderEvent :=
  collectEvents src (now - 40 * minute) (now + 20 * minute)

/-- `poll` behind its guards: what it announces, and the next baseline. -/
def pollAt (src : Sources) (b : EventBaseline) (now : Int) : List ReminderEvent × EventBaseline :=
  let events := fetched src now
  let due := dueReminders events b now
  if due.seed then
    ([], writeEventBaseline (b.record now (eventsInReminderWindow events now)) now)
  else
    let capped := due.notify.take maxPerPoll
    (capped, if capped.length > 0 then writeEventBaseline (b.record now capped) now else b)

def poll (src : Sources) (b : EventBaseline) (v : Visit) : List ReminderEvent × EventBaseline :=
  if !v.enabled then ([], b)
  else if !v.granted then ([], b)
  else if !v.signedIn then ([], b)
  else pollAt src b v.now

/-- What is announced from a baseline on, and when. -/
def announcements (src : Sources) (b : EventBaseline) : List Visit → List (Int × ReminderEvent)
  | [] => []
  | v :: visits =>
    (poll src b v).1.map (v.now, ·) ++ announcements src (poll src b v).2 visits

/-- The times of the calls that get past the guards. -/
def pollTimes (visits : List Visit) : List Int :=
  (visits.filter fun v => v.enabled && v.granted && v.signedIn).map Visit.now

/-! ## What should be announced -/

/-- The reminder window of the event opens after the first poll, and the polls go on until it
closes. -/
structure OpensDuring (src : Sources) (polls : List Int) (e : ReminderEvent) (s : Int) : Prop where
  mem : e ∈ src.events
  timed : e.isAllDay = false
  start : e.dtstart = some s
  opens : ∀ t ∈ polls.head?, t < s - eventWindowBefore
  closes : ∃ t ∈ polls, s + eventWindowAfter ≤ t

/-- The announcements of one event. -/
def timesOf (announced : List (Int × ReminderEvent)) (e : ReminderEvent) :
    List (Int × ReminderEvent) :=
  announced.filter fun a => a.2 = e

/-- Every event whose window opens after the first poll is announced once, within its window, and
none twice. -/
def RemindedOnce (src : Sources) (visits : List Visit) : Prop :=
  (∀ e s, OpensDuring src (pollTimes visits) e s →
    ∃ t, s - eventWindowBefore ≤ t ∧ t ≤ s + eventWindowAfter ∧
      timesOf (announcements src [] visits) e = [(t, e)]) ∧
  ∀ e, (timesOf (announcements src [] visits) e).length ≤ 1

/-- No poll finds more due than it may announce. -/
def FewDue (src : Sources) (b : EventBaseline) (polls : List Int) : Prop :=
  StepsMeet (fun b t => (pollAt src b t).2)
    (fun b t => (dueReminders (fetched src t) b t).notify.length ≤ maxPerPoll) b polls

/-- The events in their window that a poll gets. -/
def seen (src : Sources) (now : Int) : List ReminderEvent :=
  eventsInReminderWindow (fetched src now) now

/-- The first poll that sees an event. -/
def firstSight (src : Sources) (polls : List Int) : Option Int :=
  polls.find? fun t => !(seen src t).isEmpty

/-- A subscription's event, an event without an end or with one at most five minutes after its
start is in every range that its window is in; another one must be met late in its window.  The
first poll that sees an event does not see this one. -/
structure Heeded (src : Sources) (polls : List Int) (e : ReminderEvent) (s : Int) : Prop where
  got : e ∈ src.subscriptions.flatten ∨ e.dtend.all (· ≤ s + 5 * minute) = true ∨
    ∃ t ∈ polls, e ∈ seen src t
  unseeded : ∀ t ∈ firstSight src polls, e ∉ seen src t

/-! ## The baseline -/

section Baseline

variable {b : EventBaseline} {now ts : Int} {id : Text}

theorem EventBaseline.has_iff : b.has id = true ↔ ∃ ts, (id, ts) ∈ b := by
  rw [EventBaseline.has, List.any_eq_true]
  constructor
  · rintro ⟨⟨k, ts⟩, hmem, hk⟩
    cases eq_of_beq hk
    exact ⟨ts, hmem⟩
  · rintro ⟨ts, hmem⟩
    exact ⟨(id, ts), hmem, beq_self_eq_true id⟩

theorem EventBaseline.mem_record (events : List ReminderEvent) :
    (id, ts) ∈ b.record now events ↔
      (id ∈ events.map ReminderEvent.id ∧ ts = now) ∨
        (id ∉ events.map ReminderEvent.id ∧ (id, ts) ∈ b) := by
  induction events generalizing b with
  | nil => simp [EventBaseline.record]
  | cons e events ih =>
    rw [EventBaseline.record, ih, List.map_cons, List.mem_cons, List.mem_cons, List.mem_filter,
      Prod.mk.injEq]
    by_cases hid : id = e.id
    · simp only [hid, true_and, true_or, not_true_eq_false, false_and, or_false]
      simp only [bne_self_eq_false, Bool.false_eq_true, and_false, or_false]
      tauto
    · have hne : (id != e.id) = true := bne_iff_ne.mpr hid
      simp only [hid, false_and, false_or, hne, and_true]

theorem mem_writeEventBaseline :
    (id, ts) ∈ writeEventBaseline b now ↔ (id, ts) ∈ b ∧ now - ts < baselineTtl := by
  rw [writeEventBaseline, List.mem_filter, decide_eq_true_iff]

theorem mem_write_record {events : List ReminderEvent} {e : ReminderEvent} (he : e ∈ events) :
    (e.id, now) ∈ writeEventBaseline (b.record now events) now := by
  rw [mem_writeEventBaseline, EventBaseline.mem_record, Int.sub_self]
  exact ⟨.inl ⟨List.mem_map_of_mem he, rfl⟩, by decide⟩

end Baseline

/-! ## One poll -/

section Poll

variable {src : Sources} {b : EventBaseline} {now s : Int} {e f : ReminderEvent}

theorem collectEvents_eq (src : Sources) (start stop : Int) :
    collectEvents src start stop =
      listEvents start stop src.calendars.flatten ++
        listSubscriptionEvents start stop src.subscriptions.flatten := by
  rw [listEvents, listSubscriptionEvents, List.filter_flatten, List.filter_flatten]
  rfl

theorem seen_sublist (src : Sources) (now : Int) : (seen src now).Sublist src.events := by
  refine List.filter_sublist.trans ?_
  rw [fetched, collectEvents_eq]
  exact List.filter_sublist.append List.filter_sublist

theorem eq_of_id (he : e ∈ src.events) (hf : f ∈ src.events) (h : e.id = f.id) : e = f :=
  List.inj_on_of_nodup_map src.ids he hf h

/-- A poll sees an event of a subscription in its window, and one of a calendar if it ends early
enough. -/
theorem mem_seen (htimed : e.isAllDay = false) (hs : e.dtstart = some s) :
    e ∈ seen src now ↔ (s - eventWindowBefore ≤ now ∧ now ≤ s + eventWindowAfter) ∧
      (e ∈ src.subscriptions.flatten ∨
        e ∈ src.calendars.flatten ∧ e.dtend.all (· ≤ now + 20 * minute) = true) := by
  have hwindow : (now - eventWindowAfter ≤ s ∧ s ≤ now + eventWindowBefore) ↔
      s - eventWindowBefore ≤ now ∧ now ≤ s + eventWindowAfter := by omega
  have hrange : (now - eventWindowAfter ≤ s ∧ s ≤ now + eventWindowBefore) →
      now - 40 * minute ≤ s ∧ s < now + 20 * minute := by
    unfold eventWindowAfter eventWindowBefore minute
    omega
  rw [seen, fetched, collectEvents_eq, eventsInReminderWindow, List.mem_filter, List.mem_append,
    listEvents, listSubscriptionEvents, List.mem_filter, List.mem_filter, hs, htimed, ← hwindow]
  simp only [Option.any_some, Bool.not_false, Bool.true_and, Bool.and_eq_true, decide_eq_true_iff]
  tauto

theorem window_of_seen (he : e ∈ seen src now) : ∃ s, e.isAllDay = false ∧ e.dtstart = some s ∧
    s - eventWindowBefore ≤ now ∧ now ≤ s + eventWindowAfter := by
  obtain ⟨htimed, hin⟩ := Bool.and_eq_true_iff.mp (List.mem_filter.mp he).2
  obtain ⟨s, hs⟩ : ∃ s, e.dtstart = some s := by
    cases hs : e.dtstart with
    | none =>
      rw [hs] at hin
      cases hin
    | some s => exact ⟨s, rfl⟩
  have htimed' : e.isAllDay = false := by simpa using htimed
  exact ⟨s, htimed', hs, ((mem_seen htimed' hs).mp he).1⟩

/-- The first run announces nothing and records what it sees. -/
theorem pollAt_nil (src : Sources) (now : Int) :
    pollAt src [] now =
      ([], writeEventBaseline (EventBaseline.record [] now (seen src now)) now) := rfl

/-- What a later poll announces. -/
def capped (src : Sources) (b : EventBaseline) (now : Int) : List ReminderEvent :=
  ((seen src now).filter fun e => !b.has e.id).take maxPerPoll

theorem pollAt_of_ne_nil (hb : b ≠ []) : pollAt src b now = (capped src b now,
    if (capped src b now).length > 0 then
      writeEventBaseline (b.record now (capped src b now)) now else b) := by
  have hseed : b.isEmpty = false := by simpa using hb
  unfold pollAt dueReminders
  simp only [hseed, Bool.false_eq_true, if_false]
  rfl

theorem announced_sublist (src : Sources) (b : EventBaseline) (now : Int) :
    (pollAt src b now).1.Sublist (seen src now) := by
  by_cases hb : b = []
  · rw [hb]
    exact List.nil_sublist _
  · rw [pollAt_of_ne_nil hb]
    exact (List.take_sublist _ _).trans List.filter_sublist

theorem seen_of_announced (he : e ∈ (pollAt src b now).1) : e ∈ seen src now :=
  (announced_sublist src b now).subset he

theorem recorded_of_announced (he : e ∈ (pollAt src b now).1) :
    b.has e.id = false ∧ (e.id, now) ∈ (pollAt src b now).2 := by
  by_cases hb : b = []
  · rw [hb] at he
    cases he
  · rw [pollAt_of_ne_nil hb] at he ⊢
    have hnew := (List.mem_filter.mp (List.mem_of_mem_take he)).2
    refine ⟨by simpa using hnew, ?_⟩
    rw [if_pos (List.length_pos_of_mem he)]
    exact mem_write_record he

/-- A record is kept for a day. -/
theorem keeps_record {ts : Int} (hmem : (e.id, ts) ∈ b) (hage : now - ts < baselineTtl) :
    (e.id, ts) ∈ (pollAt src b now).2 := by
  have hb : b ≠ [] := List.ne_nil_of_mem hmem
  have hnew : e.id ∉ (capped src b now).map ReminderEvent.id := by
    intro h
    obtain ⟨f, hf, hid⟩ := List.mem_map.mp h
    have hno := (List.mem_filter.mp (List.mem_of_mem_take hf)).2
    rw [hid, EventBaseline.has_iff.mpr ⟨ts, hmem⟩] at hno
    cases hno
  rw [pollAt_of_ne_nil hb]
  dsimp only
  split
  · rw [mem_writeEventBaseline, EventBaseline.mem_record]
    exact ⟨.inr ⟨hnew, hmem⟩, hage⟩
  · exact hmem

/-- A later poll leaves a baseline that is not empty, and records no event but those it
announces. -/
theorem baseline_of_ne_nil (hb : b ≠ []) (he : e ∈ src.events) (hnew : b.has e.id = false)
    (hquiet : e ∉ (pollAt src b now).1) :
    (pollAt src b now).2 ≠ [] ∧ EventBaseline.has (pollAt src b now).2 e.id = false := by
  rw [pollAt_of_ne_nil hb] at hquiet ⊢
  dsimp only at hquiet ⊢
  split
  case isTrue hpos =>
    obtain ⟨f, hf⟩ := List.exists_mem_of_length_pos hpos
    refine ⟨List.ne_nil_of_mem (mem_write_record hf), Bool.eq_false_iff.mpr fun h => ?_⟩
    obtain ⟨ts, hts⟩ := EventBaseline.has_iff.mp h
    rcases (EventBaseline.mem_record _).mp (mem_writeEventBaseline.mp hts).1 with
      ⟨hid, -⟩ | ⟨-, hold⟩
    · obtain ⟨f, hf, hid⟩ := List.mem_map.mp hid
      have hmem : f ∈ src.events :=
        (seen_sublist src now).subset (List.mem_filter.mp (List.mem_of_mem_take hf)).1
      cases eq_of_id hmem he hid
      exact hquiet hf
    · rw [EventBaseline.has_iff.mpr ⟨ts, hold⟩] at hnew
      cases hnew
  case isFalse => exact ⟨hb, hnew⟩

end Poll

/-! ## The announcements of an event -/

section Runs

variable {src : Sources} {b : EventBaseline} {e : ReminderEvent} {polls : List Int} {s now : Int}

/-- What is announced by polls that all get past the guards. -/
def announcementsAt (src : Sources) (b : EventBaseline) : List Int → List (Int × ReminderEvent)
  | [] => []
  | now :: polls =>
    (pollAt src b now).1.map (now, ·) ++ announcementsAt src (pollAt src b now).2 polls

theorem announcements_eq (src : Sources) (b : EventBaseline) (visits : List Visit) :
    announcements src b visits = announcementsAt src b (pollTimes visits) := by
  induction visits generalizing b with
  | nil => rfl
  | cons v visits ih =>
    obtain ⟨now, enabled, granted, signedIn⟩ := v
    rw [announcements, ih]
    cases enabled <;> cases granted <;> cases signedIn <;> rfl

theorem timesOf_cons (src : Sources) (b : EventBaseline) (now : Int) (polls : List Int) :
    timesOf (announcementsAt src b (now :: polls)) e =
      (if e ∈ (pollAt src b now).1 then [(now, e)] else []) ++
        timesOf (announcementsAt src (pollAt src b now).2 polls) e := by
  have hnodup : (pollAt src b now).1.Nodup :=
    ((List.Nodup.of_map _ src.ids).sublist (seen_sublist src now)).sublist
      (announced_sublist src b now)
  have hhere : ((pollAt src b now).1.map (now, ·)).filter (fun a => a.2 = e) =
      if e ∈ (pollAt src b now).1 then [(now, e)] else [] := by
    rw [List.filter_map]
    show List.map _ (List.filter (fun f => decide (f = e)) _) = _
    split
    · rename_i he
      rw [List.filter_eq, List.count_eq_one_of_mem hnodup he]
      rfl
    · rename_i he
      rw [List.filter_eq, List.count_eq_zero_of_not_mem he]
      rfl
  rw [timesOf, announcementsAt, List.filter_append, hhere]
  rfl

theorem timesOf_cons_of_not_mem (he : e ∉ (pollAt src b now).1) (polls : List Int) :
    timesOf (announcementsAt src b (now :: polls)) e =
      timesOf (announcementsAt src (pollAt src b now).2 polls) e := by
  rw [timesOf_cons, if_neg he, List.nil_append]

theorem seen_of_timesOf (h : timesOf (announcementsAt src b polls) e ≠ []) :
    ∃ t ∈ polls, e ∈ seen src t := by
  induction polls generalizing b with
  | nil => exact absurd rfl h
  | cons now polls ih =>
    by_cases he : e ∈ (pollAt src b now).1
    · exact ⟨now, List.mem_cons_self, seen_of_announced he⟩
    · rw [timesOf_cons_of_not_mem he] at h
      obtain ⟨t, ht, hseen⟩ := ih h
      exact ⟨t, List.mem_cons_of_mem now ht, hseen⟩

/-- An event is silent once it was recorded in its window, since its window closes before the record
is pruned. -/
theorem timesOf_of_silenced (hpolls : polls.Pairwise (· < ·)) (hs : e.dtstart = some s)
    (h : (∃ ts, (e.id, ts) ∈ b ∧ s - eventWindowBefore ≤ ts) ∨
      ∀ t ∈ polls, s + eventWindowAfter < t) :
    timesOf (announcementsAt src b polls) e = [] := by
  induction polls generalizing b with
  | nil => rfl
  | cons now polls ih =>
    obtain ⟨hlater, hrest⟩ := List.pairwise_cons.mp hpolls
    have hquiet : e ∉ (pollAt src b now).1 := by
      intro he
      rcases h with ⟨ts, hmem, -⟩ | hclosed
      · have hno := (recorded_of_announced he).1
        rw [EventBaseline.has_iff.mpr ⟨ts, hmem⟩] at hno
        cases hno
      · obtain ⟨s', -, hs', -, hin⟩ := window_of_seen (seen_of_announced he)
        cases hs.symm.trans hs'
        exact absurd hin (Int.not_le.mpr (hclosed now List.mem_cons_self))
    rw [timesOf_cons_of_not_mem hquiet]
    apply ih hrest
    rcases h with ⟨ts, hmem, hopen⟩ | hclosed
    · by_cases hage : now - ts < baselineTtl
      · exact .inl ⟨ts, keeps_record hmem hage, hopen⟩
      · refine .inr fun t ht => ?_
        have htime := hlater t ht
        unfold eventWindowBefore minute at hopen
        unfold baselineTtl minute at hage
        unfold eventWindowAfter minute
        omega
    · exact .inr fun t ht => hclosed t (List.mem_cons_of_mem now ht)

theorem length_timesOf_le_one (hpolls : polls.Pairwise (· < ·)) :
    (timesOf (announcementsAt src b polls) e).length ≤ 1 := by
  induction polls generalizing b with
  | nil => exact Nat.zero_le 1
  | cons now polls ih =>
    obtain ⟨-, hrest⟩ := List.pairwise_cons.mp hpolls
    by_cases he : e ∈ (pollAt src b now).1
    · obtain ⟨s, -, hs, hopen, -⟩ := window_of_seen (seen_of_announced he)
      rw [timesOf_cons, if_pos he, timesOf_of_silenced hrest hs
        (.inl ⟨now, (recorded_of_announced he).2, hopen⟩)]
      exact Nat.le_refl 1
    · rw [timesOf_cons_of_not_mem he]
      exact ih hrest

/-- With a baseline, an event that it does not name is announced by the first poll that sees it. -/
theorem timesOf_of_running (hpolls : polls.Pairwise (· < ·)) (hdue : FewDue src b polls)
    (hb : b ≠ []) (he : e ∈ src.events) (hnew : b.has e.id = false)
    (hseen : ∃ t ∈ polls, e ∈ seen src t) :
    ∃ t ∈ polls, e ∈ seen src t ∧ timesOf (announcementsAt src b polls) e = [(t, e)] := by
  induction polls generalizing b with
  | nil =>
    obtain ⟨t, ht, -⟩ := hseen
    cases ht
  | cons now polls ih =>
    obtain ⟨-, hrest⟩ := List.pairwise_cons.mp hpolls
    obtain ⟨hfew, hdue⟩ := hdue
    by_cases hnow : e ∈ seen src now
    · have hann : e ∈ (pollAt src b now).1 := by
        have hseed : b.isEmpty = false := by simpa using hb
        rw [dueReminders, hseed] at hfew
        have hshort : ((seen src now).filter fun f => !b.has f.id).length ≤ maxPerPoll := hfew
        rw [pollAt_of_ne_nil hb, capped, List.take_of_length_le hshort]
        exact List.mem_filter.mpr ⟨hnow, by rw [hnew]; rfl⟩
      obtain ⟨s, -, hs, hopen, -⟩ := window_of_seen hnow
      refine ⟨now, List.mem_cons_self, hnow, ?_⟩
      rw [timesOf_cons, if_pos hann, timesOf_of_silenced hrest hs
        (.inl ⟨now, (recorded_of_announced hann).2, hopen⟩)]
      rfl
    · have hquiet : e ∉ (pollAt src b now).1 := fun h => hnow (seen_of_announced h)
      obtain ⟨hb', hnew'⟩ := baseline_of_ne_nil hb he hnew hquiet
      have hlater : ∃ t ∈ polls, e ∈ seen src t := by
        obtain ⟨t, ht, hseen⟩ := hseen
        rcases List.mem_cons.mp ht with rfl | ht
        · exact absurd hseen hnow
        · exact ⟨t, ht, hseen⟩
      obtain ⟨t, ht, hseen, htimes⟩ := ih hrest hdue hb' hnew' hlater
      exact ⟨t, List.mem_cons_of_mem now ht, hseen, by rw [timesOf_cons_of_not_mem hquiet, htimes]⟩

theorem mem_seed {ts : Int} {id : Text} :
    (id, ts) ∈ (pollAt src [] now).2 ↔ id ∈ (seen src now).map ReminderEvent.id ∧ ts = now := by
  rw [pollAt_nil, mem_writeEventBaseline, EventBaseline.mem_record]
  constructor
  · rintro ⟨⟨hid, hts⟩ | ⟨-, hold⟩, -⟩
    · exact ⟨hid, hts⟩
    · cases hold
  · rintro ⟨hid, rfl⟩
    exact ⟨.inl ⟨hid, rfl⟩, by rw [Int.sub_self]; decide⟩

theorem has_seed (he : e ∈ src.events) :
    EventBaseline.has (pollAt src [] now).2 e.id = true ↔ e ∈ seen src now := by
  rw [EventBaseline.has_iff]
  constructor
  · rintro ⟨ts, hts⟩
    obtain ⟨f, hf, hid⟩ := List.mem_map.mp (mem_seed.mp hts).1
    cases eq_of_id ((seen_sublist src now).subset hf) he hid
    exact hf
  · intro h
    exact ⟨now, mem_seed.mpr ⟨List.mem_map_of_mem h, rfl⟩⟩

theorem pollAt_of_unseen (h : seen src now = []) : pollAt src [] now = ([], []) := by
  rw [pollAt_nil, h]
  rfl

theorem firstSight_of_unseen (h : seen src now = []) :
    firstSight src (now :: polls) = firstSight src polls := by
  rw [firstSight, List.find?_cons, h]
  rfl

theorem firstSight_of_seen (h : seen src now ≠ []) : firstSight src (now :: polls) = some now := by
  rw [firstSight, List.find?_cons, List.isEmpty_eq_false_iff.mpr h]
  rfl

/-- What the first sight sees is never announced. -/
theorem unseeded_of_timesOf (hpolls : polls.Pairwise (· < ·))
    (h : timesOf (announcementsAt src [] polls) e ≠ []) :
    ∀ t ∈ firstSight src polls, e ∉ seen src t := by
  induction polls with
  | nil => exact absurd rfl h
  | cons now polls ih =>
    obtain ⟨-, hrest⟩ := List.pairwise_cons.mp hpolls
    have hquiet : e ∉ (pollAt src [] now).1 := List.not_mem_nil
    rw [timesOf_cons_of_not_mem hquiet] at h
    by_cases hsight : seen src now = []
    · rw [firstSight_of_unseen hsight]
      rw [pollAt_of_unseen hsight] at h
      exact ih hrest h
    · rw [firstSight_of_seen hsight]
      intro t ht hseen
      cases Option.mem_some_iff.mp ht
      obtain ⟨s, -, hs, hopen, -⟩ := window_of_seen hseen
      exact h (timesOf_of_silenced hrest hs
        (.inl ⟨now, mem_seed.mpr ⟨List.mem_map_of_mem hseen, rfl⟩, hopen⟩))

theorem timesOf_of_heeded (hpolls : polls.Pairwise (· < ·)) (hdue : FewDue src [] polls)
    (he : e ∈ src.events) (hseen : ∃ t ∈ polls, e ∈ seen src t)
    (hunseeded : ∀ t ∈ firstSight src polls, e ∉ seen src t) :
    ∃ t ∈ polls, e ∈ seen src t ∧ timesOf (announcementsAt src [] polls) e = [(t, e)] := by
  induction polls with
  | nil =>
    obtain ⟨t, ht, -⟩ := hseen
    cases ht
  | cons now polls ih =>
    obtain ⟨-, hrest⟩ := List.pairwise_cons.mp hpolls
    have hdue : FewDue src (pollAt src [] now).2 polls := hdue.2
    have hquiet : e ∉ (pollAt src [] now).1 := List.not_mem_nil
    have hnow : e ∉ seen src now := by
      by_cases hsight : seen src now = []
      · rw [hsight]
        exact List.not_mem_nil
      · exact hunseeded now (firstSight_of_seen hsight)
    have hlater : ∃ t ∈ polls, e ∈ seen src t := by
      obtain ⟨t, ht, hseen⟩ := hseen
      rcases List.mem_cons.mp ht with rfl | ht
      · exact absurd hseen hnow
      · exact ⟨t, ht, hseen⟩
    obtain ⟨t, ht, hseen, htimes⟩ : ∃ t ∈ polls, e ∈ seen src t ∧
        timesOf (announcementsAt src (pollAt src [] now).2 polls) e = [(t, e)] := by
      by_cases hsight : seen src now = []
      · rw [firstSight_of_unseen hsight] at hunseeded
        rw [pollAt_of_unseen hsight] at hdue ⊢
        exact ih hrest hdue hlater hunseeded
      · obtain ⟨f, hf⟩ := List.exists_mem_of_ne_nil _ hsight
        have hb : (pollAt src [] now).2 ≠ [] :=
          List.ne_nil_of_mem (mem_seed.mpr ⟨List.mem_map_of_mem hf, rfl⟩)
        have hnew := Bool.eq_false_iff.mpr fun h => hnow ((has_seed he).mp h)
        exact timesOf_of_running hrest hdue hb he hnew hlater
    exact ⟨t, List.mem_cons_of_mem now ht, hseen, by rw [timesOf_cons_of_not_mem hquiet, htimes]⟩

/-! ## Polls every minute -/

/-- A time after the first poll is met within a minute. -/
theorem exists_within_minute (hpolls : polls.IsChain fun t u => t < u ∧ u - t < minute) {time : Int}
    (hfirst : ∀ t ∈ polls.head?, t < time) (hlast : ∃ t ∈ polls, time ≤ t) :
    ∃ t ∈ polls, time ≤ t ∧ t < time + minute := by
  induction polls with
  | nil =>
    obtain ⟨t, ht, -⟩ := hlast
    cases ht
  | cons now polls ih =>
    have hnow : now < time := hfirst now rfl
    have hlater : ∃ t ∈ polls, time ≤ t := by
      obtain ⟨t, ht, htime⟩ := hlast
      rcases List.mem_cons.mp ht with rfl | ht
      · omega
      · exact ⟨t, ht, htime⟩
    obtain ⟨t, ht, htime⟩ : ∃ t ∈ polls, time ≤ t ∧ t < time + minute := by
      cases polls with
      | nil =>
        obtain ⟨t, ht, -⟩ := hlater
        cases ht
      | cons next polls =>
        obtain ⟨⟨-, hgap⟩, hrest⟩ := List.isChain_cons_cons.mp hpolls
        by_cases hnext : time ≤ next
        · exact ⟨next, List.mem_cons_self, hnext, by omega⟩
        · refine ih hrest (fun t ht => ?_) hlater
          cases Option.mem_some_iff.mp ht
          omega
    exact ⟨t, List.mem_cons_of_mem now ht, htime⟩

theorem seen_of_got (hpolls : polls.IsChain fun t u => t < u ∧ u - t < minute)
    (he : OpensDuring src polls e s)
    (hgot : e ∈ src.subscriptions.flatten ∨ e.dtend.all (· ≤ s + 5 * minute) = true ∨
      ∃ t ∈ polls, e ∈ seen src t) : ∃ t ∈ polls, e ∈ seen src t := by
  have hend : ∃ t ∈ polls, s - eventWindowBefore ≤ t := by
    obtain ⟨t, ht, hclosed⟩ := he.closes
    refine ⟨t, ht, ?_⟩
    unfold eventWindowAfter minute at hclosed
    unfold eventWindowBefore minute
    omega
  obtain ⟨t, ht, hopen, hsoon⟩ := exists_within_minute hpolls he.opens hend
  have hwindow : s - eventWindowBefore ≤ t ∧ t ≤ s + eventWindowAfter := by
    refine ⟨hopen, ?_⟩
    unfold eventWindowBefore minute at hsoon
    unfold eventWindowAfter minute
    omega
  rcases hgot with hsub | hshort | hseen
  · exact ⟨t, ht, (mem_seen he.timed he.start).mpr ⟨hwindow, .inl hsub⟩⟩
  · refine ⟨t, ht, (mem_seen he.timed he.start).mpr ⟨hwindow, ?_⟩⟩
    rcases List.mem_append.mp he.mem with hcal | hsub
    · refine .inr ⟨hcal, ?_⟩
      cases hdtend : e.dtend with
      | none => rfl
      | some d =>
        rw [hdtend, Option.all_some, decide_eq_true_iff] at hshort
        rw [Option.all_some, decide_eq_true_iff]
        unfold eventWindowBefore at hopen
        unfold minute at *
        omega
    · exact .inl hsub
  · exact hseen

theorem fewDue_of_length (hlen : src.events.length ≤ maxPerPoll) : FewDue src b polls := by
  induction polls generalizing b with
  | nil => trivial
  | cons now polls ih =>
    refine ⟨?_, ih⟩
    have hseen : (seen src now).length ≤ maxPerPoll :=
      Nat.le_trans (seen_sublist src now).length_le hlen
    show (dueReminders (fetched src now) b now).notify.length ≤ maxPerPoll
    unfold dueReminders
    dsimp only
    split
    · exact Nat.zero_le maxPerPoll
    · exact Nat.le_trans (List.length_filter_le _ _) hseen

theorem heeded_of_reminded (hpolls : polls.Pairwise (· < ·)) {t : Int}
    (h : timesOf (announcementsAt src [] polls) e = [(t, e)]) : Heeded src polls e s := by
  have hne : timesOf (announcementsAt src [] polls) e ≠ [] := by
    rw [h]
    exact List.cons_ne_nil _ _
  exact ⟨.inr (.inr (seen_of_timesOf hne)), unseeded_of_timesOf hpolls hne⟩

end Runs

/-- Polls less than a minute apart, from an empty baseline on: every event whose window opens after
the first of them is announced once and none twice, exactly if every such event is in a range that
its calendar answers and is not seen by the first poll that sees any. -/
theorem remindedOnce_iff (src : Sources) (visits : List Visit)
    (hpolls : (pollTimes visits).IsChain fun t u => t < u ∧ u - t < minute)
    (hdue : FewDue src [] (pollTimes visits)) :
    RemindedOnce src visits ↔
      ∀ e s, OpensDuring src (pollTimes visits) e s → Heeded src (pollTimes visits) e s := by
  have hlater : (pollTimes visits).Pairwise (· < ·) :=
    List.isChain_iff_pairwise.mp (hpolls.imp fun _ _ h => h.1)
  unfold RemindedOnce
  rw [announcements_eq]
  constructor
  · rintro ⟨honce, -⟩ e s he
    obtain ⟨t, -, -, htimes⟩ := honce e s he
    exact heeded_of_reminded hlater htimes
  · intro h
    refine ⟨fun e s he => ?_, fun e => length_timesOf_le_one hlater⟩
    obtain ⟨hgot, hunseeded⟩ := h e s he
    obtain ⟨t, -, hseen, htimes⟩ :=
      timesOf_of_heeded hlater hdue he.mem (seen_of_got hpolls he hgot) hunseeded
    obtain ⟨hopen, hclose⟩ := ((mem_seen he.timed he.start).mp hseen).1
    exact ⟨t, hopen, hclose, htimes⟩

/-! ## A quiet start -/

def meeting : ReminderEvent := ⟨"meeting".toList, some 901000, none, false⟩

theorem nodup_meeting :
    (([[meeting]].flatten ++ ([] : List (List ReminderEvent)).flatten).map
      ReminderEvent.id).Nodup := by
  decide

def oneMeeting : Sources := ⟨[[meeting]], [], nodup_meeting⟩

/-- A poll every 59 seconds. -/
def visitsFrom (start : Int) (n : Nat) : List Visit :=
  (List.range n).map fun k => ⟨start + 59000 * k, true, true, true⟩

theorem remindedOnce_iff_quiet :
    RemindedOnce oneMeeting (visitsFrom 0 47) ↔
      ∀ e s, OpensDuring oneMeeting (pollTimes (visitsFrom 0 47)) e s →
        Heeded oneMeeting (pollTimes (visitsFrom 0 47)) e s :=
  remindedOnce_iff oneMeeting (visitsFrom 0 47) (by decide) (fewDue_of_length (by decide))

/-- The first poll sees no event, so the next one takes itself for the first. -/
theorem not_remindedOnce_quiet :
    (pollTimes (visitsFrom 0 47)).IsChain (fun t u => t < u ∧ u - t < minute) ∧
      FewDue oneMeeting [] (pollTimes (visitsFrom 0 47)) ∧
      ¬RemindedOnce oneMeeting (visitsFrom 0 47) := by
  have hpolls : (pollTimes (visitsFrom 0 47)).IsChain fun t u => t < u ∧ u - t < minute := by
    decide
  refine ⟨hpolls, fewDue_of_length (by decide), ?_⟩
  rintro ⟨honce, -⟩
  have hopens : OpensDuring oneMeeting (pollTimes (visitsFrom 0 47)) meeting 901000 :=
    ⟨by decide, rfl, rfl, by decide, 2714000, by decide, by decide⟩
  obtain ⟨t, -, -, htimes⟩ := honce meeting 901000 hopens
  rw [announcements_eq] at htimes
  have hlater := List.isChain_iff_pairwise.mp (hpolls.imp fun _ _ h => h.1)
  have hheeded : Heeded oneMeeting (pollTimes (visitsFrom 0 47)) meeting 901000 :=
    heeded_of_reminded hlater htimes
  exact hheeded.unseeded 59000 (by decide) (by decide)

end Lyra.Reminders
