import Lyra.Dav.Client
import Lyra.Lib.KeyedTable
import Lyra.Lib.Runs

/-!
# DAV synchronisation

`sync_carddav` and `sync_caldav` of `pim_dav.rs` over whole histories.  The server keeps a
log of the changes of its items; a sync token stands for a place in the log.  The answers
are what `parse_sync_response` and `multiget` read off.

The database may fail at every statement, the server at every request; a sync that stops
half way is one in which the later statements fail.
-/

namespace Lyra.Dav

open Lyra.Lib

/-! ## The server -/

/-- A change of an item; the entity tag names the version. -/
inductive Change
  | put (href etag : Text)
  | delete (href : Text)
  deriving DecidableEq, Repr

def Change.href : Change → Text
  | .put h _ => h
  | .delete h => h

/-- The entity tag of an item after a change. -/
def Change.apply (href : Text) (etag : Option Text) : Change → Option Text
  | .put h e => if h = href then some e else etag
  | .delete h => if h = href then none else etag

/-- The entity tag of an item after the changes of a log. -/
def etagAt (log : List Change) (href : Text) : Option Text := log.foldl (Change.apply href) none

/-- The changes of a log touch the item. -/
def Touched (log : List Change) (href : Text) : Prop := ∃ c ∈ log, c.href = href

structure DavItem where
  href : Text
  etag : Option Text
  data : Option Text
  deriving DecidableEq, Repr

/-- A server with sync reports. -/
structure DavServer where
  addressbooks : List Text
  /-- URLs and names. -/
  calendars : List (Text × Text)
  /-- The collection that an item belongs to. -/
  collectionOf : Text → Text
  /-- The content of a version. -/
  dataOf : Text → Text → Text
  /-- Which of the `sync-token` elements of a request counts. -/
  readToken : List (Option Text) → Option Text
  report : List Change → Text → Option Text → SyncChanges
  listing : List Change → Text → List Text
  multiget : List Change → Text → List Text → List DavItem
  readToken_mem : ∀ l, l ≠ [] → readToken l ∈ l
  /-- No token is ever invalid. -/
  report_valid : ∀ log c token, (report log c token).invalid = false
  /-- Without a token: every item, no removals. -/
  report_all : ∀ log c h, h ∈ (report log c none).changed ↔
    collectionOf h = c ∧ (etagAt log h).isSome
  report_all_removed : ∀ log c, (report log c none).removed = []
  /-- With a token: what changed since the token was given. -/
  report_changed : ∀ old c asked token, (report old c asked).token = some token → ∀ more h,
    collectionOf h = c → Touched more h → (etagAt (old ++ more) h).isSome →
    h ∈ (report (old ++ more) c (some token)).changed
  report_gone : ∀ old c asked token, (report old c asked).token = some token → ∀ more h,
    collectionOf h = c → Touched more h → etagAt (old ++ more) h = none →
    h ∈ (report (old ++ more) c (some token)).removed
  report_removed : ∀ log c token h, h ∈ (report log c token).removed →
    collectionOf h = c ∧ etagAt log h = none
  listing_all : ∀ log c h, h ∈ listing log c ↔ collectionOf h = c ∧ (etagAt log h).isSome
  multiget_all : ∀ log c hrefs, ∀ h ∈ hrefs, ∀ e, collectionOf h = c → etagAt log h = some e →
    ⟨h, some e, some (dataOf h e)⟩ ∈ multiget log c hrefs
  multiget_data : ∀ log c hrefs, ∀ item ∈ multiget log c hrefs, ∀ data, item.data = some data →
    collectionOf item.href = c ∧ ∃ e, etagAt log item.href = some e ∧ item.etag = some e ∧
      data = dataOf item.href e

/-! ## The tables -/

/-- A row of `contact` or `calendar_event` of the account. -/
structure PimRow where
  id : Text
  externalId : Text
  collectionUrl : Text
  calendarId : Option Text
  etag : Option Text
  data : Text
  deriving DecidableEq, Repr

/-- A row of `calendar`. -/
structure CalendarRow where
  id : Text
  calendarUrl : Text
  name : Text
  syncToken : Option Text
  deriving DecidableEq, Repr

structure PimState where
  log : List Change
  contacts : List PimRow
  events : List PimRow
  /-- `dav_cursor` for `carddav`. -/
  cursor : Option Text
  calendars : List CalendarRow

/-- What works in a sync of one collection, and what changes on the server between its
report and its multigets. -/
structure SyncOutcome where
  calendarRead : Bool := true
  calendarSaved : Bool := true
  cursorRead : Bool := true
  answered : Bool := true
  listed : Bool := true
  fetched : Bool := true
  /-- The upserts and the removals, by position. -/
  stored : Nat → Bool := fun _ => true
  removed : Nat → Bool := fun _ => true
  cursorSaved : Bool := true
  meanwhile : List Change := []

/-! ## One collection -/

/-- `upsert_contact`, `upsert_event`. -/
def upsertItem (collection : Text) (calendar : Option Text) (rows : List PimRow) (item : DavItem) :
    List PimRow :=
  match item.data with
  | none => rows
  | some data =>
    match rows.find? fun r => r.externalId == item.href with
    | some row =>
      if row.etag = item.etag ∧ item.etag.isSome then rows
      else rows.map fun r =>
        if r.id = row.id then
          { r with
            collectionUrl := collection
            calendarId := calendar
            etag := some (item.etag.getD [])
            data := data }
        else r
    | none =>
      rows ++ [
        { id := freshWord '0' (rows.map PimRow.id)
          externalId := item.href
          collectionUrl := collection
          calendarId := calendar
          etag := some (item.etag.getD [])
          data := data }]

def upsertItems (works : Nat → Bool) (collection : Text) (calendar : Option Text)
    (rows : List PimRow) (items : List DavItem) : List PimRow :=
  items.zipIdx.foldl
    (fun rows p => if works p.2 then upsertItem collection calendar rows p.1 else rows) rows

/-- `tombstone_contact`, and the same for events. -/
def tombstone (rows : List PimRow) (href : Text) : List PimRow :=
  rows.filter fun r => !(r.externalId == href)

def tombstones (works : Nat → Bool) (rows : List PimRow) (hrefs : List Text) : List PimRow :=
  hrefs.zipIdx.foldl (fun rows p => if works p.2 then tombstone rows p.1 else rows) rows

variable (srv : DavServer)

/-- The `sync-token` elements of a `sync_collection` request: an empty one stands before the
one of the token. -/
def tokenElements (prior : Option Text) : List (Option Text) :=
  none :: (prior.map some).toList

/-- The token that the server finds in the request. -/
def askedToken (prior : Option Text) : Option Text := srv.readToken (tokenElements prior)

/-- `delta`: what to fetch, what to remove and the next token. -/
def delta (out : SyncOutcome) (log : List Change) (collection : Text) (prior : Option Text) :
    Option (List Text × List Text × Option Text) :=
  let changes :=
    if out.answered then some (srv.report log collection (askedToken srv prior)) else none
  match changes.filter fun changes => !changes.invalid with
  | some changes => some (changes.changed, changes.removed, changes.token)
  | none => if out.listed then some (srv.listing log collection, [], none) else none

/-- The multigets, in chunks. -/
def fetch (log : List Change) (collection : Text) (hrefs : List Text) : List DavItem :=
  (chunks multigetChunk hrefs).flatMap (srv.multiget log collection)

/-- The rows and the next token; nothing is written if a request fails. -/
def syncRows (out : SyncOutcome) (log : List Change) (collection : Text) (calendar : Option Text)
    (prior : Option Text) (rows : List PimRow) : Option (List PimRow × Option Text) :=
  match delta srv out log collection prior with
  | none => none
  | some (toFetch, removed, next) =>
    if out.fetched then
      let items := fetch srv (log ++ out.meanwhile) collection toFetch
      some (tombstones out.removed (upsertItems out.stored collection calendar rows items) removed,
        next)
    else none

/-! ## The syncs -/

/-- `sync_carddav`: whether it succeeds, and the state. -/
def syncCarddav (out : SyncOutcome) (s : PimState) : Bool × PimState :=
  -- only the first address book
  match srv.addressbooks.head? with
  | none => (true, s)
  | some c =>
    let prior := if out.cursorRead then s.cursor else none
    let log := s.log ++ out.meanwhile
    match syncRows srv out s.log c none prior s.contacts with
    | none => (false, { s with log := log })
    | some (contacts, next) =>
      (true, { s with
        log := log
        contacts := contacts
        cursor := if out.cursorSaved then next else s.cursor })

/-- `ensure_calendar`. -/
def ensureCalendar (out : SyncOutcome) (url name : Text) (calendars : List CalendarRow) :
    Text × List CalendarRow :=
  let found := if out.calendarRead then calendars.find? fun c => c.calendarUrl == url else none
  match found with
  | some c => (c.id, calendars)
  | none =>
    let id := freshWord '0' (calendars.map CalendarRow.id)
    (id, if out.calendarSaved then calendars ++ [⟨id, url, name, none⟩] else calendars)

/-- `load_calendar_token`. -/
def loadCalendarToken (calendars : List CalendarRow) (id : Text) : Option Text :=
  (calendars.find? fun c => c.id == id).bind CalendarRow.syncToken

/-- The loop of `sync_caldav`. -/
def syncCalendars (out : Text → SyncOutcome) : List (Text × Text) → PimState → Bool × PimState
  | [], s => (true, s)
  | (url, name) :: rest, s =>
    let (calendar, calendars) := ensureCalendar (out url) url name s.calendars
    let s := { s with calendars := calendars }
    let prior := if (out url).cursorRead then loadCalendarToken calendars calendar else none
    let log := s.log ++ (out url).meanwhile
    match syncRows srv (out url) s.log url (some calendar) prior s.events with
    | none => (false, { s with log := log })
    -- the next token is not kept
    | some (events, _) => syncCalendars out rest { s with log := log, events := events }

/-- `sync_caldav`. -/
def syncCaldav (out : Text → SyncOutcome) (s : PimState) : Bool × PimState :=
  syncCalendars srv out srv.calendars s

/-! ## Histories -/

inductive PimAction
  | change (c : Change)
  | carddav (out : SyncOutcome)
  | caldav (out : Text → SyncOutcome)

def PimState.next (s : PimState) : PimAction → PimState
  | .change c => { s with log := s.log ++ [c] }
  | .carddav out => (syncCarddav srv out s).2
  | .caldav out => (syncCaldav srv out s).2

def PimState.empty : PimState where
  log := []
  contacts := []
  events := []
  cursor := none
  calendars := []

/-- Changes of the server and syncs, in any order. -/
def davSystem : System PimState PimAction where
  init s := s = .empty
  step s a t := t = s.next srv a

/-- The rows of a collection are its items with their contents. -/
structure Converged (collection : Text) (rows : List PimRow) (log : List Change) : Prop where
  present : ∀ h e, srv.collectionOf h = collection → etagAt log h = some e →
    ∃ r ∈ rows, r.externalId = h ∧ r.collectionUrl = collection ∧ r.data = srv.dataOf h e
  only : ∀ r ∈ rows, r.collectionUrl = collection →
    ∃ e, etagAt log r.externalId = some e ∧ r.data = srv.dataOf r.externalId e
  once : (rows.map PimRow.externalId).Nodup

/-- No row of the collection is of an item that the server has deleted. -/
def NoneDeleted (collection : Text) (rows : List PimRow) (log : List Change) : Prop :=
  ∀ r ∈ rows, r.collectionUrl = collection → (etagAt log r.externalId).isSome

/-- A sync of contacts that commits a token has stored and removed what the report named,
and where the report had no token to start from, no row was of a deleted item. -/
def Careful (s : PimState) : PimAction → Prop
  | .carddav out => out.answered = true → out.fetched = true → out.cursorSaved = true →
    (∀ n, out.stored n = true ∧ out.removed n = true) ∧
      ∀ c, srv.addressbooks.head? = some c →
        askedToken srv (if out.cursorRead then s.cursor else none) = none →
        NoneDeleted c s.contacts s.log
  | _ => True

end Lyra.Dav
