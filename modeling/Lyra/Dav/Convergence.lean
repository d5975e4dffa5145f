import Lyra.Dav.Rows

/-!
# Convergence of DAV syncs

* `dav_converges`: when a sync in which nothing fails leaves the collection's rows equal to
  its items;
* `dav_diverges`: a deleted event stays, and a contact whose upsert failed is not fetched again.

CalDAV tokens are never kept, so its reports name no removals.
-/

namespace Lyra.Dav

open Lyra.Lib

variable {srv : DavServer} {rows : List PimRow} {collection : Text} {calendar : Option Text}

/-! ## Invariants -/

/-- The contacts were stored by syncs, and the committed token covers them. -/
structure ContactsInv (srv : DavServer) (s : PimState) : Prop where
  rows : RowsOk srv s.contacts
  token : ∀ c t, srv.addressbooks.head? = some c → s.cursor = some t →
    TokenCovers srv c s.contacts s.log t

/-- The events were stored by syncs; no token is ever kept. -/
structure EventsInv (srv : DavServer) (s : PimState) : Prop where
  rows : RowsOk srv s.events
  tokens : ∀ c ∈ s.calendars, c.syncToken = none

variable (srv) in
theorem syncCarddav_cases (out : SyncOutcome) (s : PimState) :
    (srv.addressbooks.head? = none ∧ syncCarddav srv out s = (true, s)) ∨
    ∃ c, srv.addressbooks.head? = some c ∧
      ((syncCarddav srv out s = (false, { s with log := s.log ++ out.meanwhile })) ∨
        ∃ contacts next,
          syncRows srv out s.log c none (if out.cursorRead then s.cursor else none) s.contacts =
            some (contacts, next) ∧
          syncCarddav srv out s = (true, { s with
            log := s.log ++ out.meanwhile
            contacts := contacts
            cursor := if out.cursorSaved then next else s.cursor })) := by
  unfold syncCarddav
  cases srv.addressbooks.head? with
  | none => exact .inl ⟨rfl, rfl⟩
  | some c =>
    refine .inr ⟨c, rfl, ?_⟩
    dsimp only
    cases hsync : syncRows srv out s.log c none (if out.cursorRead then s.cursor else none)
        s.contacts with
    | none => exact .inl rfl
    | some found => exact .inr ⟨found.1, found.2, rfl, rfl⟩

theorem ContactsInv.grow {s : PimState} (h : ContactsInv srv s) (more : List Change) :
    ContactsInv srv { s with log := s.log ++ more } :=
  ⟨h.rows, fun c t hc ht => (h.token c t hc ht).grow more⟩

theorem ContactsInv.carddav {s : PimState} (h : ContactsInv srv s) {out : SyncOutcome}
    (hcare : Careful srv s (.carddav out)) : ContactsInv srv (syncCarddav srv out s).2 := by
  rcases syncCarddav_cases srv out s with ⟨_, he⟩ | ⟨c, hc, he | ⟨contacts, next, hrows, he⟩⟩
  · rw [he]
    exact h
  · rw [he]
    exact h.grow out.meanwhile
  · rw [he]
    have hsync := syncRows_spec h.rows hrows
    refine ⟨hsync.ok, ?_⟩
    intro c' t hc' ht
    obtain rfl : c = c' := Option.some.inj (hc.symm.trans hc')
    dsimp only at ht
    split at ht
    · rename_i hsaved
      rcases hsync.next_eq with hnext | ⟨hans, hnext⟩
      · rw [hnext] at ht
        cases ht
      · obtain ⟨hworks, hnone⟩ := hcare hans hsync.fetched hsaved
        refine ⟨s.log, out.meanwhile, _, rfl, hnext.symm.trans ht, ?_⟩
        intro href hcoll
        by_cases hmean : Touched out.meanwhile href
        · exact .inl hmean
        · refine .inr (hsync.upToDate h.rows hans hworks ?_ (hnone c hc) hcoll hmean)
          intro t' ht'
          split at ht'
          · exact h.token c t' hc ht'
          · cases ht'
    · exact (h.token c t hc ht).keeps hsync

theorem ensureCalendar_tokens (out : SyncOutcome) (url name : Text) {calendars : List CalendarRow}
    (h : ∀ c ∈ calendars, c.syncToken = none) :
    ∀ c ∈ (ensureCalendar out url name calendars).2, c.syncToken = none := by
  unfold ensureCalendar
  dsimp only
  split
  · exact h
  · dsimp only
    split
    · intro c hc
      rcases List.mem_append.mp hc with hc | hc
      · exact h c hc
      · rw [List.mem_singleton.mp hc]
    · exact h

theorem loadCalendarToken_none {calendars : List CalendarRow}
    (h : ∀ c ∈ calendars, c.syncToken = none) (id : Text) : loadCalendarToken calendars id = none := by
  unfold loadCalendarToken
  cases hfind : calendars.find? fun c => c.id == id with
  | none => rfl
  | some c => exact h c (List.mem_of_find?_eq_some hfind)

theorem syncCalendars_spec (out : Text → SyncOutcome) (calendars : List (Text × Text)) {s : PimState}
    (h : EventsInv srv s) : EventsInv srv (syncCalendars srv out calendars s).2 ∧
      ∃ more, (syncCalendars srv out calendars s).2.log = s.log ++ more ∧
        (syncCalendars srv out calendars s).2.contacts = s.contacts ∧
        (syncCalendars srv out calendars s).2.cursor = s.cursor := by
  induction calendars generalizing s with
  | nil => exact ⟨h, [], (List.append_nil _).symm, rfl, rfl⟩
  | cons first rest ih =>
    obtain ⟨url, name⟩ := first
    have htokens := ensureCalendar_tokens (out url) url name h.tokens
    rw [syncCalendars]
    dsimp only
    split
    · exact ⟨⟨h.rows, htokens⟩, _, rfl, rfl, rfl⟩
    · rename_i events next heq
      have hsync := syncRows_spec h.rows heq
      have hnext : EventsInv srv
          { s with
            log := s.log ++ (out url).meanwhile
            events := events
            calendars := (ensureCalendar (out url) url name s.calendars).2 } :=
        ⟨hsync.ok, htokens⟩
      obtain ⟨hinv, more, hlog, hcontacts, hcursor⟩ := ih hnext
      exact ⟨hinv, (out url).meanwhile ++ more, hlog.trans (List.append_assoc _ _ _), hcontacts,
        hcursor⟩

theorem eventsInv (s : PimState) {ok : PimState → PimAction → Prop}
    (h : (davSystem srv).Reachable ok s) : EventsInv srv s := by
  induction h with
  | init hs =>
    subst hs
    exact ⟨⟨List.nodup_nil, List.nodup_nil, fun r hr => nomatch hr⟩, fun c hc => nomatch hc⟩
  | @step s t a _ _ hst ih =>
    subst hst
    cases a with
    | change c => exact ⟨ih.rows, ih.tokens⟩
    | carddav out =>
      have hsame : (syncCarddav srv out s).2.events = s.events ∧
          (syncCarddav srv out s).2.calendars = s.calendars := by
        rcases syncCarddav_cases srv out s with ⟨_, he⟩ | ⟨c, _, he | ⟨contacts, next, _, he⟩⟩
        · rw [he]
          exact ⟨rfl, rfl⟩
        · rw [he]
          exact ⟨rfl, rfl⟩
        · rw [he]
          exact ⟨rfl, rfl⟩
      refine ⟨?_, ?_⟩
      · rw [PimState.next, hsame.1]
        exact ih.rows
      · rw [PimState.next, hsame.2]
        exact ih.tokens
    | caldav out => exact (syncCalendars_spec out srv.calendars ih).1

theorem contactsInv (s : PimState) (h : (davSystem srv).Reachable (Careful srv) s) :
    ContactsInv srv s := by
  induction h with
  | init hs =>
    subst hs
    refine ⟨⟨List.nodup_nil, List.nodup_nil, fun r hr => nomatch hr⟩, ?_⟩
    intro c t _ ht
    cases ht
  | @step s t a hreach hcare hst ih =>
    subst hst
    cases a with
    | change c => exact ih.grow [c]
    | carddav out => exact ih.carddav hcare
    | caldav out =>
      obtain ⟨_, more, hlog, hcontacts, hcursor⟩ :=
        syncCalendars_spec out srv.calendars (eventsInv s hreach)
      have hgrow := ih.grow more
      refine ⟨?_, ?_⟩
      · rw [PimState.next, syncCaldav, hcontacts]
        exact hgrow.rows
      · intro c t hc ht
        rw [PimState.next, syncCaldav, hcursor] at ht
        rw [PimState.next, syncCaldav, hcontacts, hlog]
        exact hgrow.token c t hc ht

/-! ## A sync in which nothing fails -/

theorem converged_of_stored {c : Text} {log : List Change} (h : RowsOk srv rows)
    (hall : ∀ href, srv.collectionOf href = c → storedEtag rows href = etagAt log href) :
    Converged srv c rows log where
  present := by
    intro href e hcoll he
    obtain ⟨r, hr, hext, hurl, hdata⟩ := h.mem_of_storedEtag ((hall href hcoll).trans he)
    exact ⟨r, hr, hext, hurl.trans hcoll, hdata⟩
  only := by
    intro r hr hurl
    obtain ⟨hcoll, e, he, hdata⟩ := h.stored r hr
    refine ⟨e, ?_, hdata⟩
    rw [← hall r.externalId (hcoll.symm.trans hurl), h.storedEtag_of_mem hr, he]
  once := h.externalIds

/-- A deleted item's row that the sync leaves keeps the collection from converging. -/
theorem noneDeleted_of_converged {c : Text} {log : List Change} {rows' : List PimRow}
    (h : RowsOk srv rows) (h' : RowsOk srv rows')
    (hkeep : ∀ href, srv.collectionOf href = c → etagAt log href = none →
      storedEtag rows' href = storedEtag rows href)
    (hconv : Converged srv c rows' log) : NoneDeleted c rows log := by
  intro r hr hurl
  cases hnow : etagAt log r.externalId with
  | some e => rfl
  | none =>
    obtain ⟨hcoll, e, he, _⟩ := h.stored r hr
    have hstored := hkeep r.externalId (hcoll.symm.trans hurl) hnow
    rw [h.storedEtag_of_mem hr, he] at hstored
    obtain ⟨r', hr', hext, hurl', _⟩ := h'.mem_of_storedEtag hstored
    obtain ⟨e', he', _⟩ := hconv.only r' hr' (hurl'.trans (hcoll.symm.trans hurl))
    rw [hext, hnow] at he'
    cases he'

theorem askedToken_none : askedToken srv none = none := by
  rcases readToken_cases none with h | h
  · exact h
  · exact h

variable (srv) in
theorem syncRows_clean (rows : List PimRow) (log : List Change) (c : Text)
    (calendar prior : Option Text) :
    ∃ rows' next, syncRows srv {} log c calendar prior rows = some (rows', next) := by
  unfold syncRows delta
  have hvalid := srv.report_valid log c (askedToken srv prior)
  simp only [↓reduceIte, Option.filter_some, hvalid, Bool.not_false]
  exact ⟨_, _, rfl⟩

/-- Where the server finds no token, no row of a deleted item is removed. -/
theorem SyncedRows.keeps_deleted {out : SyncOutcome} {log : List Change} {c : Text}
    {prior next : Option Text} {rows' : List PimRow}
    (h : SyncedRows srv out log c prior rows rows' next) (hmeanwhile : out.meanwhile = [])
    (hasked : askedToken srv prior = none) {href : Text} (hnone : etagAt log href = none) :
    storedEtag rows' href = storedEtag rows href := by
  rcases h.cases href with hsame | ⟨_, hsome, _⟩ | ⟨_, _, _, _, hmem⟩
  · exact hsame
  · rw [hmeanwhile, List.append_nil, hnone] at hsome
    cases hsome
  · rw [hasked, srv.report_all_removed] at hmem
    cases hmem

theorem carddav_converges {s : PimState} (h : ContactsInv srv s) {c : Text}
    (hc : srv.addressbooks.head? = some c) :
    Converged srv c (syncCarddav srv {} s).2.contacts s.log ↔
      (askedToken srv s.cursor = none → NoneDeleted c s.contacts s.log) := by
  obtain ⟨contacts, next, hrows⟩ := syncRows_clean srv s.contacts s.log c none s.cursor
  have hsync := syncRows_spec h.rows hrows
  have hfinal : (syncCarddav srv {} s).2.contacts = contacts := by
    unfold syncCarddav
    rw [hc]
    dsimp only
    rw [if_pos rfl, hrows]
  rw [hfinal]
  constructor
  · intro hconv hasked
    apply noneDeleted_of_converged h.rows hsync.ok _ hconv
    intro href _ hnone
    exact hsync.keeps_deleted rfl hasked hnone
  · intro hnone
    apply converged_of_stored hsync.ok
    intro href hcoll
    exact hsync.upToDate h.rows rfl (fun _ => ⟨rfl, rfl⟩) (fun t => h.token c t hc) hnone hcoll
      (fun ⟨_, hm, _⟩ => nomatch hm)

/-- The loop brings every listed calendar's items up to date, and removes nothing. -/
theorem syncCalendars_clean (calendars : List (Text × Text)) {s : PimState} (h : EventsInv srv s) :
    ∀ href, storedEtag (syncCalendars srv (fun _ => {}) calendars s).2.events href =
      if srv.collectionOf href ∈ calendars.map Prod.fst ∧ (etagAt s.log href).isSome then
        etagAt s.log href
      else storedEtag s.events href := by
  induction calendars generalizing s with
  | nil =>
    intro href
    exact (if_neg fun hmem => nomatch hmem.1).symm
  | cons first rest ih =>
    obtain ⟨url, name⟩ := first
    intro href
    have htokens := ensureCalendar_tokens {} url name h.tokens
    obtain ⟨events, next, hrows⟩ := syncRows_clean srv s.events s.log url
      (some (ensureCalendar {} url name s.calendars).1) none
    have hsync := syncRows_spec h.rows hrows
    have hnext : EventsInv srv
        { s with
          log := s.log ++ []
          events := events
          calendars := (ensureCalendar {} url name s.calendars).2 } :=
      ⟨hsync.ok, htokens⟩
    have hstep : (syncCalendars srv (fun _ => {}) ((url, name) :: rest) s).2 =
        (syncCalendars srv (fun _ => {}) rest
          { s with
            log := s.log ++ []
            events := events
            calendars := (ensureCalendar {} url name s.calendars).2 }).2 := by
      rw [syncCalendars]
      dsimp only
      rw [if_pos rfl, loadCalendarToken_none htokens, hrows]
    rw [hstep, ih hnext href]
    dsimp only
    rw [List.append_nil, List.map_cons]
    cases hnow : etagAt s.log href with
    | none =>
      have hno : ∀ listed : Prop, ¬ (listed ∧ (none : Option Text).isSome = true) :=
        fun _ hboth => nomatch hboth.2
      rw [if_neg (hno _), if_neg (hno _)]
      exact hsync.keeps_deleted rfl askedToken_none hnow
    | some e =>
      by_cases hrest : srv.collectionOf href ∈ rest.map Prod.fst
      · rw [if_pos ⟨hrest, rfl⟩, if_pos ⟨List.mem_cons_of_mem _ hrest, rfl⟩]
      · rw [if_neg fun hboth => hrest hboth.1]
        by_cases hurl : srv.collectionOf href = url
        · rw [if_pos ⟨hurl ▸ List.mem_cons_self, rfl⟩, ← hnow]
          have hsome : (etagAt s.log href).isSome := by
            rw [hnow]
            rfl
          apply hsync.changed rfl (fun _ => ⟨rfl, rfl⟩) href (fun ⟨_, hm, _⟩ => nomatch hm) hurl _ hsome
          rw [askedToken_none]
          exact (srv.report_all s.log url href).mpr ⟨hurl, hsome⟩
        · rw [if_neg]
          · rcases hsync.cases href with hsame | ⟨hcoll, _⟩ | ⟨hcoll, _⟩
            · exact hsame
            · exact absurd hcoll hurl
            · exact absurd hcoll hurl
          · rintro ⟨hmem, _⟩
            rcases List.mem_cons.mp hmem with he | hmem
            · exact hurl he
            · exact hrest hmem

theorem caldav_converges {s : PimState} (h : EventsInv srv s) {c : Text}
    (hc : c ∈ srv.calendars.map Prod.fst) :
    Converged srv c (syncCaldav srv (fun _ => {}) s).2.events s.log ↔
      NoneDeleted c s.events s.log := by
  have hok := (syncCalendars_spec (fun _ => {}) srv.calendars h).1.rows
  have hstored := syncCalendars_clean srv.calendars h
  constructor
  · intro hconv
    apply noneDeleted_of_converged h.rows hok _ hconv
    intro href _ hnone
    rw [hstored, if_neg]
    rw [hnone]
    exact fun hboth => nomatch hboth.2
  · intro hnone
    apply converged_of_stored hok
    intro href hcoll
    rw [hstored]
    cases hnow : etagAt s.log href with
    | none =>
      rw [if_neg fun hboth => nomatch hboth.2]
      exact hnone.stored h.rows hcoll hnow
    | some e => rw [if_pos ⟨hcoll ▸ hc, rfl⟩]

/-! ## A server -/

/-- A token is the length of the log in strokes; the last token of a request counts. -/
def strokes (n : Nat) : Text := List.replicate n '1'

def changedHrefs (collectionOf : Text → Text) (log since : List Change) (c : Text) : List Text :=
  (since.map Change.href).filter fun h => collectionOf h == c && (etagAt log h).isSome

theorem etagAt_some_touched {log : List Change} {href : Text} (h : (etagAt log href).isSome) :
    Touched log href := by
  by_contra hno
  have hnone : etagAt ([] ++ log) href = none := etagAt_untouched [] hno
  rw [List.nil_append] at hnone
  rw [hnone] at h
  cases h

theorem mem_changedHrefs {collectionOf : Text → Text} {log since : List Change} {c h : Text} :
    h ∈ changedHrefs collectionOf log since c ↔
      Touched since h ∧ collectionOf h = c ∧ (etagAt log h).isSome := by
  unfold changedHrefs Touched
  simp only [List.mem_filter, List.mem_map, Bool.and_eq_true, beq_iff_eq]

/-- The directory of a path. -/
def parentPath (h : Text) : Text := ((h.reverse.dropWhile (· ≠ '/'))).reverse

def strokeServer (addressbooks : List Text) (calendars : List (Text × Text)) : DavServer where
  addressbooks := addressbooks
  calendars := calendars
  collectionOf := parentPath
  dataOf _ e := e
  readToken l := l.getLastD none
  report log c token :=
    let since := log.drop ((token.map List.length).getD 0)
    { changed := changedHrefs parentPath log since c
      removed := match token with
        | none => []
        | some _ => (since.map Change.href).filter fun h => parentPath h == c && (etagAt log h).isNone
      token := some (strokes log.length)
      invalid := false }
  listing log c := changedHrefs parentPath log log c
  multiget log c hrefs := hrefs.filterMap fun h =>
    if parentPath h = c then (etagAt log h).map fun e => ⟨h, some e, some e⟩ else none
  readToken_mem := by
    intro l hl
    rw [List.getLastD_eq_getLast?, List.getLast?_eq_some_getLast hl]
    exact List.getLast_mem hl
  report_valid _ _ _ := rfl
  report_all := by
    intro log c h
    refine mem_changedHrefs.trans ?_
    constructor
    · rintro ⟨_, hrest⟩
      exact hrest
    · rintro ⟨hcoll, hsome⟩
      exact ⟨etagAt_some_touched hsome, hcoll, hsome⟩
  report_all_removed _ _ := rfl
  report_changed := by
    intro old c asked token htoken more h hcoll htouched hsome
    obtain rfl : strokes old.length = token := Option.some.inj htoken
    refine mem_changedHrefs.mpr ⟨?_, hcoll, hsome⟩
    rw [Option.map_some, Option.getD_some, strokes, List.length_replicate, List.drop_left]
    exact htouched
  report_gone := by
    intro old c asked token htoken more h hcoll htouched hnone
    obtain rfl : strokes old.length = token := Option.some.inj htoken
    obtain ⟨ch, hch, rfl⟩ := htouched
    refine List.mem_filter.mpr ⟨?_, ?_⟩
    · rw [Option.map_some, Option.getD_some, strokes, List.length_replicate, List.drop_left]
      exact List.mem_map_of_mem hch
    · rw [hcoll, hnone, beq_self_eq_true]
      rfl
  report_removed := by
    intro log c token h hmem
    cases token with
    | none => cases hmem
    | some t =>
      have hkept := (List.mem_filter.mp hmem).2
      rw [Bool.and_eq_true, beq_iff_eq, Option.isNone_iff_eq_none] at hkept
      exact hkept
  listing_all := by
    intro log c h
    refine mem_changedHrefs.trans ?_
    constructor
    · rintro ⟨_, hrest⟩
      exact hrest
    · rintro ⟨hcoll, hsome⟩
      exact ⟨etagAt_some_touched hsome, hcoll, hsome⟩
  multiget_all := by
    intro log c hrefs h hmem e hcoll he
    refine List.mem_filterMap.mpr ⟨h, hmem, ?_⟩
    rw [if_pos hcoll, he]
    rfl
  multiget_data := by
    intro log c hrefs item hitem data hdata
    obtain ⟨h, _, heq⟩ := List.mem_filterMap.mp hitem
    split at heq
    · rename_i hcoll
      obtain ⟨e, he, rfl⟩ := Option.map_eq_some_iff.mp heq
      exact ⟨hcoll, e, he, rfl, (Option.some.inj hdata).symm⟩
    · cases heq

/-! ## Convergence -/

/-- The state after some actions. -/
def PimState.after (srv : DavServer) (actions : List PimAction) : PimState :=
  actions.foldl (fun s a => s.next srv a) .empty

theorem reachable_after {ok : PimState → PimAction → Prop} (actions : List PimAction) {s : PimState}
    (hs : (davSystem srv).Reachable ok s) (hok : ∀ a ∈ actions, ∀ s, ok s a) :
    (davSystem srv).Reachable ok (actions.foldl (fun s a => s.next srv a) s) := by
  induction actions generalizing s with
  | nil => exact hs
  | cons a actions ih =>
    exact ih (hs.take a (hok a List.mem_cons_self s) rfl) fun b hb =>
      hok b (List.mem_cons_of_mem _ hb)

instance (c : Text) (rows : List PimRow) (log : List Change) : Decidable (NoneDeleted c rows log) := by
  unfold NoneDeleted
  infer_instance

def homeServer : DavServer :=
  strokeServer ["/ab/".toList] [("/cal/".toList, "Home".toList)]

/-- A contact is stored, then deleted on the server. -/
def contactRun : PimState :=
  ((PimState.empty.next homeServer (.change (.put "/ab/x".toList "1".toList))).next homeServer
    (.carddav {})).next homeServer (.change (.delete "/ab/x".toList))

end Lyra.Dav
