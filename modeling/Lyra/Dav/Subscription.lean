import Lyra.Lib.KeyedTable
import Lyra.Dav.Feed

/-!
# Refreshing a subscription

A refresh deletes the stored events of the subscription and inserts those of the feed one by
one, each statement on its own.

* `insertEvents_stops`: the loop stores the events before the first that is not taken;
* `atomic_iff`: the old events or the new ones are there afterwards exactly where every insert
  succeeds, the deletion fails, or the old events are those stored before the failure;
* `refreshAll_events`: after any refreshes, a subscription has the events that it had, or the first
  of a feed.
-/

namespace Lyra.Pim

open Lyra.Lib

/-! ## The table -/

/-- What a feed decides of a `subscription_event` row. -/
structure EventColumns where
  externalId : Text
  icalendarBlob : Text
  summary : Text
  description : Text
  dtstart : Option UtcTime
  dtend : Option UtcTime
  location : Text
  isAllDay : Bool
  recurrenceRule : Text
  status : Text
  deriving DecidableEq, Repr

structure SubscriptionEvent where
  id : Text
  subscriptionId : Text
  columns : EventColumns
  deriving DecidableEq, Repr

/-- `UNIQUE (subscription_id, external_id)`. -/
def SubscriptionEvent.key (e : SubscriptionEvent) : Option (Text × Text) :=
  some (e.subscriptionId, e.columns.externalId)

abbrev EventTable := KeyedTable SubscriptionEvent SubscriptionEvent.id SubscriptionEvent.key

def columnsOf (ev : ParsedIcsEvent) : EventColumns where
  externalId := ev.uid
  icalendarBlob := ev.blob
  summary := ev.summary.getD []
  description := ev.description.getD []
  dtstart := ev.dtstart
  dtend := ev.dtend
  location := ev.location.getD []
  isAllDay := ev.isAllDay
  recurrenceRule := ev.rrule.getD []
  status := ev.status.getD []

def newEventId (t : EventTable) : Text := freshWord '0' (t.rows.map SubscriptionEvent.id)

inductive DbErr where
  | failed
  | rejected
  | taken
  deriving DecidableEq, Repr

/-- The statements of a refresh; `insert k` is that of the event at `k`. -/
inductive Statement where
  | select
  | delete
  | insert (k : Nat)
  | update
  deriving DecidableEq, Repr

/-- What goes wrong: statements that fail, and rows that the database rejects.  A run that ends
before a statement leaves what a failure of the statement leaves. -/
structure Faults where
  fails : Statement → Bool
  rejects : EventColumns → Bool

/-! ## Replacing the events -/

section Replace

variable (faults : Faults) (sub : Text)

def insertEvent (n : Nat) (ev : ParsedIcsEvent) (t : EventTable) : Except DbErr EventTable :=
  if faults.fails (.insert n) then .error .failed
  else if faults.rejects (columnsOf ev) then .error .rejected
  else
    match t.insert ⟨newEventId t, sub, columnsOf ev⟩ with
    | none => .error .taken
    | some t => .ok t

/-- The loop, from the event with this number. -/
def insertEvents : Nat → List ParsedIcsEvent → EventTable → Except DbErr Unit × EventTable
  | _, [], t => (.ok (), t)
  | n, ev :: events, t =>
    match insertEvent faults sub n ev t with
    | .error e => (.error e, t)
    | .ok t => insertEvents (n + 1) events t

def replaceSubscriptionEvents (events : List ParsedIcsEvent) (t : EventTable) :
    Except DbErr Nat × EventTable :=
  if faults.fails .delete then (.error .failed, t)
  else
    match insertEvents faults sub 0 events (t.deleteWhere fun e => e.subscriptionId == sub) with
    | (.ok (), t) => (.ok events.length, t)
    | (.error e, t) => (.error e, t)

end Replace

/-- The stored events of a subscription. -/
def eventsOf (sub : Text) (t : EventTable) : List EventColumns :=
  (t.rows.filter fun e => e.subscriptionId == sub).map SubscriptionEvent.columns

/-- The rows of the other subscriptions. -/
def othersOf (sub : Text) (t : EventTable) : List SubscriptionEvent :=
  t.rows.filter fun e => !(e.subscriptionId == sub)

/-- After an error the old events are stored, after a success those of the feed. -/
structure Atomic (faults : Faults) (sub : Text) (events : List ParsedIcsEvent) (t : EventTable) :
    Prop where
  old : ∀ e, (replaceSubscriptionEvents faults sub events t).1 = .error e →
    (eventsOf sub (replaceSubscriptionEvents faults sub events t).2).Perm (eventsOf sub t)
  new : ∀ n, (replaceSubscriptionEvents faults sub events t).1 = .ok n → n = events.length ∧
    (eventsOf sub (replaceSubscriptionEvents faults sub events t).2).Perm (events.map columnsOf)
  others : othersOf sub (replaceSubscriptionEvents faults sub events t).2 = othersOf sub t

/-- The insert of the event fails: the statement does, or the row is rejected, or an event before it
has the UID. -/
def Blocked (faults : Faults) (events : List ParsedIcsEvent) (k : Nat) : Prop :=
  ∃ ev, events[k]? = some ev ∧
    (faults.fails (.insert k) = true ∨ faults.rejects (columnsOf ev) = true ∨
      ∃ before ∈ events.take k, before.uid = ev.uid)

/-- The first insert that fails. -/
def FirstBlocked (faults : Faults) (events : List ParsedIcsEvent) (k : Nat) : Prop :=
  Blocked faults events k ∧ ∀ j < k, ¬Blocked faults events j

/-! ## The loop -/

section Loop

variable {faults : Faults} {sub : Text} {n : Nat} {ev : ParsedIcsEvent} {t t' : EventTable}
  {events done rest : List ParsedIcsEvent}

theorem newEventId_fresh (t : EventTable) : ∀ e ∈ t.rows, e.id ≠ newEventId t := by
  intro e he heq
  exact freshWord_not_mem '0' _ (List.mem_map.mpr ⟨e, he, heq⟩)

/-- An insert conflicts with an event of the same subscription and UID only. -/
theorem conflicts_iff (ev : ParsedIcsEvent) :
    t.conflicts ⟨newEventId t, sub, columnsOf ev⟩ = true ↔
      ev.uid ∈ (eventsOf sub t).map EventColumns.externalId := by
  unfold KeyedTable.conflicts eventsOf
  simp only [List.any_eq_true, Bool.or_eq_true, decide_eq_true_eq, KeyedTable.clash,
    SubscriptionEvent.key, Option.isSome_some, Bool.true_and, Option.some.injEq, Prod.mk.injEq,
    List.mem_map, List.mem_filter, beq_iff_eq]
  constructor
  · rintro ⟨x, hx, hid | ⟨hsub, huid⟩⟩
    · exact absurd hid (newEventId_fresh t x hx)
    · exact ⟨x.columns, ⟨x, ⟨hx, hsub⟩, rfl⟩, huid⟩
  · rintro ⟨_, ⟨x, ⟨hx, hsub⟩, rfl⟩, huid⟩
    exact ⟨x, hx, Or.inr ⟨hsub, huid⟩⟩

theorem insertEvent_error {e : DbErr} (h : insertEvent faults sub n ev t = .error e) :
    faults.fails (.insert n) = true ∨ faults.rejects (columnsOf ev) = true ∨
      ev.uid ∈ (eventsOf sub t).map EventColumns.externalId := by
  unfold insertEvent at h
  split at h
  · rename_i hfails
    exact Or.inl hfails
  split at h
  · rename_i hrejects
    exact Or.inr (Or.inl hrejects)
  split at h
  · rename_i htaken
    refine Or.inr (Or.inr ((conflicts_iff ev).mp ?_))
    cases hconf : t.conflicts ⟨newEventId t, sub, columnsOf ev⟩ with
    | true => rfl
    | false =>
      obtain ⟨t', ht', -⟩ := KeyedTable.insert_free hconf
      rw [htaken] at ht'
      cases ht'
  · cases h

theorem insertEvent_ok (h : insertEvent faults sub n ev t = .ok t') :
    (faults.fails (.insert n) = false ∧ faults.rejects (columnsOf ev) = false ∧
      ev.uid ∉ (eventsOf sub t).map EventColumns.externalId) ∧
      eventsOf sub t' = eventsOf sub t ++ [columnsOf ev] ∧ othersOf sub t' = othersOf sub t := by
  unfold insertEvent at h
  split at h
  · cases h
  rename_i hfails
  split at h
  · cases h
  rename_i hrejects
  cases hconf : t.conflicts ⟨newEventId t, sub, columnsOf ev⟩ with
  | true =>
    rw [KeyedTable.insert_taken hconf] at h
    cases h
  | false =>
    obtain ⟨u, hu, hrows⟩ := KeyedTable.insert_free hconf
    rw [hu] at h
    obtain rfl : u = t' := by simpa using h
    refine ⟨⟨by simpa using hfails, by simpa using hrejects, ?_⟩, ?_, ?_⟩
    · rw [← conflicts_iff, hconf]
      simp
    · simp [eventsOf, hrows]
    · simp [othersOf, hrows]

theorem blocked_here (hdone : eventsOf sub t = done.map columnsOf) :
    Blocked faults (done ++ ev :: rest) done.length ↔
      faults.fails (.insert done.length) = true ∨ faults.rejects (columnsOf ev) = true ∨
        ev.uid ∈ (eventsOf sub t).map EventColumns.externalId := by
  have huids : ev.uid ∈ (eventsOf sub t).map EventColumns.externalId ↔
      ∃ before ∈ done, before.uid = ev.uid := by
    rw [hdone, List.map_map, List.mem_map]
    rfl
  rw [huids]
  simp [Blocked]

/-- The loop stores the events before the first whose insert fails. -/
theorem insertEvents_stops (faults : Faults) (rest : List ParsedIcsEvent)
    (hdone : eventsOf sub t = done.map columnsOf) :
    ∃ k ≤ rest.length,
      eventsOf sub (insertEvents faults sub done.length rest t).2 =
        (done ++ rest.take k).map columnsOf ∧
      othersOf sub (insertEvents faults sub done.length rest t).2 = othersOf sub t ∧
      (∀ j, done.length ≤ j → j < done.length + k → ¬Blocked faults (done ++ rest) j) ∧
      ((insertEvents faults sub done.length rest t).1 = .ok () ∧ k = rest.length ∨
        (∃ e, (insertEvents faults sub done.length rest t).1 = .error e) ∧
          Blocked faults (done ++ rest) (done.length + k)) := by
  induction rest generalizing done t with
  | nil =>
    refine ⟨0, Nat.le_refl 0, ?_, rfl, ?_, Or.inl ⟨rfl, rfl⟩⟩
    · simpa [insertEvents] using hdone
    · intro j hle hlt
      omega
  | cons ev rest ih =>
    cases hinsert : insertEvent faults sub done.length ev t with
    | error e =>
      have hblocked : Blocked faults (done ++ ev :: rest) done.length :=
        (blocked_here hdone).mpr (insertEvent_error hinsert)
      refine ⟨0, Nat.zero_le _, ?_, ?_, ?_, Or.inr ⟨⟨e, ?_⟩, hblocked⟩⟩
      · simpa [insertEvents, hinsert] using hdone
      · simp [insertEvents, hinsert]
      · intro j hle hlt
        omega
      · simp [insertEvents, hinsert]
    | ok t' =>
      obtain ⟨hfree, hevents, hothers⟩ := insertEvent_ok hinsert
      have hdone' : eventsOf sub t' = (done ++ [ev]).map columnsOf := by
        rw [hevents, hdone, List.map_append, List.map_singleton]
      have hlen : (done ++ [ev]).length = done.length + 1 := by simp
      have hlist : done ++ [ev] ++ rest = done ++ ev :: rest := by simp
      obtain ⟨k, hk, hstored, hother, hbefore, hend⟩ := ih hdone'
      rw [hlen] at hstored hother hbefore hend
      rw [hlist] at hbefore hend
      have hloop : insertEvents faults sub done.length (ev :: rest) t =
          insertEvents faults sub (done.length + 1) rest t' := by
        simp [insertEvents, hinsert]
      rw [hloop]
      refine ⟨k + 1, by simpa using hk, ?_, hother.trans hothers, ?_, ?_⟩
      · rw [hstored, List.take_succ_cons]
        simp
      · intro j hle hlt
        rcases Nat.eq_or_lt_of_le hle with rfl | hlt'
        · -- this insert has just succeeded
          rw [blocked_here hdone]
          simp only [hfree.1, hfree.2.1, Bool.false_eq_true, false_or]
          exact hfree.2.2
        · exact hbefore j hlt' (by omega)
      · have hnext : done.length + (k + 1) = done.length + 1 + k := by omega
        rw [hnext]
        rcases hend with ⟨hok, rfl⟩ | hend
        · exact Or.inl ⟨hok, rfl⟩
        · exact Or.inr hend

/-! ## The replacement -/

theorem eventsOf_deleteWhere (sub : Text) (t : EventTable) :
    eventsOf sub (t.deleteWhere fun e => e.subscriptionId == sub) = [] := by
  simp [eventsOf, KeyedTable.deleteWhere]

theorem othersOf_deleteWhere (sub : Text) (t : EventTable) :
    othersOf sub (t.deleteWhere fun e => e.subscriptionId == sub) = othersOf sub t := by
  simp [othersOf, KeyedTable.deleteWhere]

/-- What is stored after the deletion: the feed's events, or those before the first failure. -/
theorem replace_stored (sub : Text) (events : List ParsedIcsEvent) (t : EventTable)
    (hdelete : faults.fails .delete = false) :
    othersOf sub (replaceSubscriptionEvents faults sub events t).2 = othersOf sub t ∧
      ((∀ k, ¬FirstBlocked faults events k) ∧
          (replaceSubscriptionEvents faults sub events t).1 = .ok events.length ∧
          eventsOf sub (replaceSubscriptionEvents faults sub events t).2 = events.map columnsOf ∨
        ∃ k e, FirstBlocked faults events k ∧
          (replaceSubscriptionEvents faults sub events t).1 = .error e ∧
          eventsOf sub (replaceSubscriptionEvents faults sub events t).2 =
            (events.take k).map columnsOf) := by
  obtain ⟨k, hk, hstored, hothers, hbefore, hend⟩ := insertEvents_stops faults events
    (List.map_nil ▸ eventsOf_deleteWhere sub t)
  rw [othersOf_deleteWhere] at hothers
  simp only [List.length_nil, Nat.zero_add, List.nil_append] at hstored hothers hbefore hend
  unfold replaceSubscriptionEvents
  rw [if_neg (by simp [hdelete])]
  rcases hresult : insertEvents faults sub 0 events
    (t.deleteWhere fun e => e.subscriptionId == sub) with ⟨result, t'⟩
  rw [hresult] at hstored hothers hend
  rcases hend with ⟨hok, rfl⟩ | ⟨⟨e, herror⟩, hblocked⟩
  · obtain rfl : result = .ok () := hok
    refine ⟨hothers, Or.inl ⟨?_, rfl, ?_⟩⟩
    · rintro j ⟨hj, -⟩
      have hlt : j < events.length := by
        obtain ⟨ev, hev, -⟩ := hj
        exact (List.getElem?_eq_some_iff.mp hev).1
      exact hbefore j (Nat.zero_le j) hlt hj
    · simpa using hstored
  · obtain rfl : result = .error e := herror
    exact ⟨hothers, Or.inr ⟨k, e, ⟨hblocked, fun j hj => hbefore j (Nat.zero_le j) hj⟩, rfl,
      hstored⟩⟩

theorem firstBlocked_unique {j k : Nat} (hj : FirstBlocked faults events j)
    (hk : FirstBlocked faults events k) : j = k := by
  rcases Nat.lt_trichotomy j k with h | h | h
  · exact absurd hj.1 (hk.2 j h)
  · exact h
  · exact absurd hk.1 (hj.2 k h)

end Loop

/-- The replacement is atomic exactly where the deletion fails or the old events are those that are
stored before the first insert that fails, if one does. -/
theorem atomic_iff (faults : Faults) (sub : Text) (events : List ParsedIcsEvent) (t : EventTable) :
    Atomic faults sub events t ↔ faults.fails .delete = true ∨ ∀ k, FirstBlocked faults events k →
      (eventsOf sub t).Perm ((events.take k).map columnsOf) := by
  cases hdelete : faults.fails .delete with
  | true =>
    have hrun : replaceSubscriptionEvents faults sub events t = (.error .failed, t) := by
      rw [replaceSubscriptionEvents, hdelete]
      rfl
    refine iff_of_true ⟨?_, ?_, ?_⟩ (Or.inl rfl)
    · intro e _
      rw [hrun]
    · intro n h
      rw [hrun] at h
      cases h
    · rw [hrun]
  | false =>
    obtain ⟨hothers, ⟨hnone, hok, hstored⟩ | ⟨k, e, hfirst, herror, hstored⟩⟩ :=
      replace_stored sub events t hdelete
    · refine iff_of_true ⟨?_, ?_, hothers⟩ (Or.inr fun k hk => absurd hk (hnone k))
      · intro e h
        rw [hok] at h
        cases h
      · intro n h
        rw [hok] at h
        cases h
        exact ⟨rfl, by rw [hstored]⟩
    · simp only [Bool.false_eq_true, false_or]
      constructor
      · intro h j hj
        obtain rfl := firstBlocked_unique hfirst hj
        have hold := h.old e herror
        rw [hstored] at hold
        exact hold.symm
      · intro h
        refine ⟨?_, ?_, hothers⟩
        · intro _ _
          rw [hstored]
          exact (h k hfirst).symm
        · intro n hn
          rw [herror] at hn
          cases hn

/-- A weekly meeting of which one is moved: two events of one UID. -/
def movedMeeting : Text :=
  ['\n'].intercalate (["BEGIN:VEVENT", "UID:m", "RRULE:FREQ=WEEKLY", "DTSTART:20260907T100000Z",
    "END:VEVENT", "BEGIN:VEVENT", "UID:m", "RECURRENCE-ID:20260914T100000Z",
    "DTSTART:20260914T120000Z", "END:VEVENT"].map String.toList)

def noFaults : Faults := ⟨fun _ => false, fun _ => false⟩

/-- The second event is refused, and the calendar is left with the first. -/
theorem not_atomic_movedMeeting : ∃ feed, parseIcsFeed plainDates movedMeeting = some feed ∧
    ¬Atomic noFaults "s".toList feed.events KeyedTable.empty := by
  refine ⟨(parseIcsFeed plainDates movedMeeting).get (by decide +kernel), by simp, ?_⟩
  intro h
  have hlen := (h.old .taken (by decide +kernel)).length_eq
  have hone : (eventsOf "s".toList (replaceSubscriptionEvents noFaults "s".toList
      ((parseIcsFeed plainDates movedMeeting).get (by decide +kernel)).events
      KeyedTable.empty).2).length = 1 := by decide +kernel
  rw [hone] at hlen
  cases hlen

/-! ## The refresh -/

structure SubscriptionRow where
  id : Text
  url : Text
  name : Text
  etag : Text
  lastModified : Text
  lastFetchedAt : Option UtcTime
  lastError : Option Text
  updatedAt : UtcTime
  deriving DecidableEq, Repr

structure SubscriptionDb where
  subscriptions : List SubscriptionRow
  events : EventTable

/-- What `fetch_ics_body` gives. -/
structure FetchedBody where
  body : Text
  etag : Option Text
  lastModified : Option Text

inductive RefreshError where
  | notFound
  | fetch (message : Text)
  | database (e : DbErr)
  deriving DecidableEq, Repr

def SubscriptionDb.updateRow (db : SubscriptionDb) (sub : Text)
    (f : SubscriptionRow → SubscriptionRow) : SubscriptionDb :=
  { db with subscriptions := db.subscriptions.map fun row => if row.id == sub then f row else row }

section Refresh

variable (faults : Faults) (lib : CalendarLib) (fetchIcsBody : Text → Except Text FetchedBody)
  (now : UtcTime) (sub : Text)

/-- The refresh after a fetch; `none` is a panic. -/
def storeFeed (fetched : FetchedBody) (existingName : Text) (db : SubscriptionDb) :
    Option (Except RefreshError Nat × SubscriptionDb) := do
  let feed ← parseIcsFeed lib fetched.body
  let name := (feed.calendarName.filter fun n => !n.isEmpty).getD existingName
  match replaceSubscriptionEvents faults sub feed.events db.events with
  | (.error e, events) => return (.error (.database e), { db with events := events })
  | (.ok n, events) =>
    if faults.fails .update then
      return (.error (.database .failed), { db with events := events })
    else
      return (.ok n, ({ db with events := events }).updateRow sub fun row =>
        { row with
          name := name
          etag := fetched.etag.getD []
          lastModified := fetched.lastModified.getD []
          lastFetchedAt := some now
          lastError := none
          updatedAt := now })

def refreshSubscription (db : SubscriptionDb) :
    Option (Except RefreshError Nat × SubscriptionDb) :=
  if faults.fails .select then some (.error (.database .failed), db)
  else
    match db.subscriptions.find? fun row => row.id == sub with
    | none => some (.error .notFound, db)
    | some row =>
      match fetchIcsBody row.url with
      | .ok fetched => storeFeed faults lib now sub fetched row.name db
      | .error message =>
        -- this update may fail without notice
        if faults.fails .update then some (.error (.fetch message), db)
        else some (.error (.fetch message), db.updateRow sub fun row =>
          { row with lastError := some message, updatedAt := now })

end Refresh

section Refreshed

variable {faults : Faults} {lib : CalendarLib} {fetchIcsBody : Text → Except Text FetchedBody}
  {now : UtcTime} {sub : Text} {db db' : SubscriptionDb} {r : Except RefreshError Nat}

/-- The columns are those of the first events of a feed that was fetched. -/
def FromFeed (lib : CalendarLib) (fetchIcsBody : Text → Except Text FetchedBody)
    (columns : List EventColumns) : Prop :=
  ∃ url fetched feed k, fetchIcsBody url = .ok fetched ∧ parseIcsFeed lib fetched.body = some feed ∧
    columns = (feed.events.take k).map columnsOf

theorem eventsOf_of_others {other : Text} {t t' : EventTable} (hne : other ≠ sub)
    (h : othersOf sub t' = othersOf sub t) : eventsOf other t' = eventsOf other t := by
  have hothers : ∀ t : EventTable, t.rows.filter (fun e => e.subscriptionId == other) =
      (othersOf sub t).filter fun e => e.subscriptionId == other := by
    intro t
    rw [othersOf, List.filter_filter]
    refine List.filter_congr fun e _ => ?_
    cases heq : e.subscriptionId == other with
    | false => rfl
    | true => simp [eq_of_beq heq, hne]
  rw [eventsOf, eventsOf, hothers, hothers, h]

/-- A replacement keeps the events, or leaves the first of the feed. -/
theorem replace_kept (faults : Faults) (sub other : Text) (events : List ParsedIcsEvent)
    (t : EventTable) :
    eventsOf other (replaceSubscriptionEvents faults sub events t).2 = eventsOf other t ∨
      sub = other ∧ ∃ k, eventsOf other (replaceSubscriptionEvents faults sub events t).2 =
        (events.take k).map columnsOf := by
  cases hdelete : faults.fails .delete with
  | true =>
    left
    rw [replaceSubscriptionEvents, if_pos hdelete]
  | false =>
    obtain ⟨hothers, hstored⟩ := replace_stored sub events t hdelete
    by_cases hne : other = sub
    · subst hne
      refine .inr ⟨rfl, ?_⟩
      rcases hstored with ⟨-, -, hall⟩ | ⟨k, -, -, -, hfirst⟩
      · exact ⟨events.length, by rw [hall, List.take_length]⟩
      · exact ⟨k, hfirst⟩
    · exact .inl (eventsOf_of_others hne hothers)

theorem storeFeed_events {fetched : FetchedBody} {existingName : Text}
    (h : storeFeed faults lib now sub fetched existingName db = some (r, db')) :
    ∃ feed, parseIcsFeed lib fetched.body = some feed ∧
      db'.events = (replaceSubscriptionEvents faults sub feed.events db.events).2 := by
  unfold storeFeed at h
  obtain ⟨feed, hfeed, h⟩ := Option.bind_eq_some_iff.mp h
  refine ⟨feed, hfeed, ?_⟩
  dsimp only at h
  split at h
  · rename_i hreplace
    cases h
    rw [hreplace]
  · rename_i hreplace
    rw [hreplace]
    split at h <;> cases h <;> rfl

/-- A refresh keeps the events of every subscription, or leaves the first of a feed to its own. -/
theorem refreshSubscription_events
    (h : refreshSubscription faults lib fetchIcsBody now sub db = some (r, db')) (other : Text) :
    eventsOf other db'.events = eventsOf other db.events ∨
      sub = other ∧ FromFeed lib fetchIcsBody (eventsOf other db'.events) := by
  unfold refreshSubscription at h
  split at h
  · cases h
    exact .inl rfl
  split at h
  · cases h
    exact .inl rfl
  split at h
  · rename_i row _ _ fetched hfetched
    obtain ⟨feed, hfeed, hevents⟩ := storeFeed_events h
    rw [hevents]
    refine (replace_kept faults sub other feed.events db.events).imp_right ?_
    rintro ⟨hsub, k, hk⟩
    exact ⟨hsub, row.url, fetched, feed, k, hfetched, hfeed, hk⟩
  · split at h <;> cases h <;> exact .inl rfl

end Refreshed

/-! ## Refreshes one after the other -/

structure Refresh where
  faults : Faults
  fetchIcsBody : Text → Except Text FetchedBody
  now : UtcTime
  sub : Text

def refreshAll (lib : CalendarLib) : List Refresh → SubscriptionDb → Option SubscriptionDb
  | [], db => some db
  | r :: runs, db => do
    let (_, db) ← refreshSubscription r.faults lib r.fetchIcsBody r.now r.sub db
    refreshAll lib runs db

/-- Whatever fails on the way, a subscription has the events that it had, or the first of one feed
that was fetched for it. -/
theorem refreshAll_events {lib : CalendarLib} {runs : List Refresh} {db db' : SubscriptionDb}
    (h : refreshAll lib runs db = some db') (sub : Text) :
    eventsOf sub db'.events = eventsOf sub db.events ∨
      ∃ r ∈ runs, r.sub = sub ∧ FromFeed lib r.fetchIcsBody (eventsOf sub db'.events) := by
  induction runs generalizing db with
  | nil =>
    cases h
    exact .inl rfl
  | cons r runs ih =>
    obtain ⟨⟨_, after⟩, hfirst, hrest⟩ := Option.bind_eq_some_iff.mp h
    rcases ih hrest with hkept | ⟨r', hr', hfeed⟩
    · rw [hkept]
      rcases refreshSubscription_events hfirst sub with hsame | hfeed
      · exact .inl hsame
      · exact .inr ⟨r, List.mem_cons_self, hfeed⟩
    · exact .inr ⟨r', List.mem_cons_of_mem _ hr', hfeed⟩

def meetingRefresh : Refresh :=
  ⟨noFaults, fun _ => .ok ⟨movedMeeting, none, none⟩, ⟨⟨2026, 9, 7⟩, 8, 0, 0, 0⟩, "s".toList⟩

def subscribed : SubscriptionDb :=
  ⟨[⟨"s".toList, [], [], [], [], none, none, meetingRefresh.now⟩], KeyedTable.empty⟩

theorem refreshAll_events_meeting : ∃ db',
    refreshAll plainDates [meetingRefresh, meetingRefresh] subscribed = some db' ∧
      (eventsOf "s".toList db'.events = [] ∨ ∃ r ∈ [meetingRefresh, meetingRefresh],
        r.sub = "s".toList ∧
          FromFeed plainDates r.fetchIcsBody (eventsOf "s".toList db'.events)) := by
  have hruns : (refreshAll plainDates [meetingRefresh, meetingRefresh] subscribed).isSome := by
    decide +kernel
  obtain ⟨db', h⟩ := Option.isSome_iff_exists.mp hruns
  exact ⟨db', h, refreshAll_events h _⟩

end Lyra.Pim
