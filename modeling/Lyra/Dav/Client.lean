import Lyra.Lib.Fallible
import Lyra.Lib.Chunks
import Lyra.Dav.Xml

/-!
# The DAV client

Contacts and calendars are synchronised by requests that carry the account's password.  The
client remembers the origin of the URL it was made for (`dav.rs`); the URLs it asks next
come from the server: a `Location`, the principal, the home set, the collections
(`dav_protocol.rs`, `pim_dav.rs`).

A run records the requests it sends and the server-given URLs it turns to.  The server
answers each request as it likes, knowing all requests so far.

* `credentials_pinned_iff`: every request with the password goes to the configured origin
  exactly when every URL the run turns to does;
* `credentials_leave`: a collection on another host.
-/

namespace Lyra

open Lyra.Lib Fallible

/-! ## URLs -/

def withTrailingSlash (url : Text) : Text :=
  if url.getLast? = some '/' then url else url ++ ['/']

/-- The URL library: parsing, joining and writing URLs, and `validate_server_url`.  An
origin is `scheme://host:port`; only URLs with one can be requested. -/
structure UrlLib where
  originOf : Text → Option Text
  validServerUrl : Text → Bool
  join : Text → Text → Option Text
  /-- A URL as the library writes it. -/
  serialize : Text → Text
  serialize_origin : ∀ url, originOf (serialize url) = originOf url
  /-- A path under an origin. -/
  origin_path : ∀ url origin path, originOf url = some origin →
    originOf (origin ++ '/' :: path) = some origin
  /-- A name under a collection. -/
  origin_child : ∀ url origin name, originOf url = some origin →
    originOf (withTrailingSlash url ++ name) = some origin

/-- `resolve_href`. -/
def UrlLib.resolveHref (lib : UrlLib) (base href : Text) : Text :=
  if "http://".toList.isPrefixOf href || "https://".toList.isPrefixOf href then href
  else (lib.join base href).getD href

/-! ## Requests and answers -/

inductive DavMethod
  | get
  | propfind
  | report
  | put
  deriving DecidableEq, Repr

structure DavRequest where
  method : DavMethod
  url : Text
  /-- Carries the `Authorization` header. -/
  auth : Bool
  deriving DecidableEq, Repr

inductive HttpStatus
  | success
  | redirection
  | other
  deriving DecidableEq, Repr

structure DavResponse where
  status : HttpStatus := .success
  location : Option Text := none
  body : Text := []

inductive DavError
  | http
  | protocol (text : String)
  deriving DecidableEq, Repr

/-- A run so far: the server, what was sent to it, and the server-given URLs turned to. -/
structure DavRun where
  server : List DavRequest → Option DavResponse
  sent : List DavRequest := []
  followed : List Text := []

abbrev DavM := Fallible DavRun DavError

section Requests

variable (lib : UrlLib)

/-- An answer, which may fail to arrive. -/
def receive : DavM DavResponse := do
  let s ← get
  match s.server s.sent with
  | none => throw .http
  | some resp => return resp

/-- Send a request; a URL without an origin is refused before. -/
def send (method : DavMethod) (url : Text) (auth : Bool) : DavM DavResponse :=
  if (lib.originOf url).isNone then throw .http
  else do
    modify fun s => { s with sent := s.sent ++ [⟨method, url, auth⟩] }
    receive

/-- Turn to a URL that came from the server. -/
def turnTo (url : Text) : DavM Text := do
  modify fun s => { s with followed := s.followed ++ [url] }
  return url

end Requests

/-! ## The client -/

structure DavClient where
  origin : Text

section Client

variable (lib : UrlLib)

/-- `DavClient::new`. -/
def newDavClient (baseUrl : Text) : DavM DavClient :=
  if lib.validServerUrl baseUrl then
    match lib.originOf baseUrl with
    | none => throw (.protocol "invalid URL")
    | some origin => return ⟨origin⟩
  else throw (.protocol "invalid server URL")

variable (client : DavClient)

/-- The loop of `propfind_text`; `enter` gives the URL of the next round. -/
def propfindRounds : Nat → DavM Text → DavM Text
  | 0, _ => throw (.protocol "too many redirects")
  | rounds + 1, enter => do
    let current ← enter
    let resp ← send lib .propfind current true
    match resp.status with
    | .success => return resp.body
    | .other => throw (.protocol "PROPFIND")
    | .redirection =>
      match resp.location with
      | none => throw (.protocol "redirect without Location")
      | some loc => propfindRounds rounds (turnTo (lib.resolveHref client.origin loc))

def propfindText (enter : DavM Text) : DavM Text := propfindRounds lib client 3 enter

/-- The principal that a body names. -/
def principalOf (body : Text) : Option Text :=
  (element body "current-user-principal".toList).bind fun block => tagText block.1 "href"

/-- `homeset_direct`: the principal of `base` if it is published, then the home set. -/
def homesetDirect (base : Text) (homesetProp : String) : DavM Text := do
  let body ← attempt (propfindText lib client (pure base))
  let principal := (body.bind principalOf).map (lib.resolveHref base)
  let body ← propfindText lib client ((principal.map turnTo).getD (pure base))
  match (tagText body homesetProp).or (tagText body "href") with
  | none => throw (.protocol "no home set in response")
  | some href => return lib.resolveHref (principal.getD base) href

/-- `discover_homeset`: the same from the well-known URL, which is asked without the
password first. -/
def discoverHomeset (wellKnownPath : Text) (homesetProp : String) : DavM Text := do
  let url := client.origin ++ '/' :: wellKnownPath
  let _ ← send lib .get url false
  homesetDirect lib client (lib.serialize url) homesetProp

/-- `list_collections`: the collections of this type under `home`; whatever the status. -/
def listCollections (home : Text) (resourcetype : String) : DavM (List Text) := do
  let resp ← send lib .propfind home true
  return (responseBlocks resp.body).filterMap fun block =>
    if (findOpen block resourcetype.toList).isNone then none
    else
      match tagText block "href" with
      | none => none
      | some href =>
        if lib.resolveHref home href = home then none else some (lib.resolveHref home href)

def report (url : Text) : DavM Text := do
  let resp ← send lib .report url true
  if resp.status = .success then return resp.body else throw (.protocol "REPORT")

structure SyncChanges where
  changed : List Text
  removed : List Text
  token : Option Text
  invalid : Bool

/-- `parse_sync_response`. -/
def parseSyncResponse (body : Text) : SyncChanges :=
  let token := element body "sync-token".toList
  let head := token.bind fun block => (findOpen block.1 "sync-token".toList).map fun open' =>
    (block.1.drop open'.1).takeWhile (· ≠ '>')
  let blocks := (responseBlocks body).filterMap fun block =>
    (tagText block "href").map fun href =>
      (href, (findText "404".toList block).isSome, (tagText block "getetag").isSome)
  { changed := (blocks.filter fun b => b.2.2).map (·.1)
    removed := (blocks.filter fun b => b.2.1 && !b.2.2).map (·.1)
    token := token.bind fun block => tagText block.1 "sync-token"
    invalid := head.any fun h =>
      (findText "invalid".toList h).isSome || (findText "denied".toList h).isSome }

/-- `list_etags`. -/
def listEtags (collection : Text) : DavM (List Text) := do
  let resp ← send lib .propfind collection true
  return (responseBlocks resp.body).filterMap fun block =>
    if (tagText block "getetag").isNone then none else tagText block "href"

/-- `delta`: the sync report, or else the whole listing. -/
def davDelta (collection : Text) : DavM (List Text × List Text × Option Text) := do
  let body ← attempt (report lib collection)
  match (body.map parseSyncResponse).filter fun changes => !changes.invalid with
  | some changes => return (changes.changed, changes.removed, changes.token)
  | none =>
    let hrefs ← listEtags lib collection
    return (hrefs, [], none)

def multigetChunk : Nat := 50

/-- `multiget`: the hrefs of the items that come back. -/
def multiget (collection : Text) : List (List Text) → DavM (List Text)
  | [] => return []
  | _ :: chunks => do
    let body ← report lib collection
    let rest ← multiget collection chunks
    return (responseBlocks body).filterMap (tagText · "href") ++ rest

/-- One collection's part of a sync: what to store and what to remove. -/
def syncCollectionItems (collection : Text) : DavM (List Text × List Text) := do
  let (toFetch, removed, _) ← davDelta lib collection
  let items ← multiget lib collection (chunks multigetChunk toFetch)
  return (items, removed)

/-- `resolve_homeset`. -/
def resolveHomeset (stored : Option Text) (wellKnown : Text) (homesetProp : String) :
    DavM (DavM Text) :=
  match stored.filter (· ≠ []) with
  | some url => return pure url
  | none => do
    let home ← discoverHomeset lib client wellKnown homesetProp
    return turnTo home

end Client

/-! ## Operations -/

/-- What the account's password is used for; `discovered` starts a sync from the well-known
URL.  Address books and calendars keep the URL under which they were synchronised. -/
inductive DavOperation
  | syncCarddav (discovered : Bool)
  | syncCaldav (discovered : Bool)
  | discover (wellKnownPath : Text) (homesetProp : String)
  | discoverDirect (homesetProp : String)
  | createContact (addressbookUrl : Option Text) (uid : Text)
  | createEvent (calendarUrl uid : Text)

section Operations

variable (lib : UrlLib)

/-- One collection of a sync. -/
def syncCollection (collection : Text) : DavM PUnit := do
  let collection ← turnTo collection
  let _ ← syncCollectionItems lib collection
  return ⟨⟩

/-- The collections a sync finds. -/
def homeCollections (client : DavClient) (stored : Option Text) (wellKnown : Text)
    (homesetProp resourcetype : String) : DavM (List Text) := do
  let enter ← resolveHomeset lib client stored wellKnown homesetProp
  let home ← enter
  listCollections lib home resourcetype

/-- Where a new contact goes: the first synchronised address book, or the configured URL. -/
def contactUrl (configured : Text) (addressbookUrl : Option Text) (name : Text) : DavM Text :=
  match addressbookUrl with
  | some url => turnTo (withTrailingSlash url ++ name)
  | none => pure (withTrailingSlash configured ++ name)

/-- An operation of an account with this URL. -/
def DavOperation.run (configured : Text) : DavOperation → DavM PUnit
  -- a single address book: the first one
  | .syncCarddav discovered => do
    let client ← newDavClient lib configured
    let found ← homeCollections lib client (if discovered then none else some configured)
      ".well-known/carddav".toList "addressbook-home-set" "addressbook"
    forEach (syncCollection lib) found.head?.toList
  | .syncCaldav discovered => do
    let client ← newDavClient lib configured
    let found ← homeCollections lib client (if discovered then none else some configured)
      ".well-known/caldav".toList "calendar-home-set" "calendar"
    forEach (syncCollection lib) found
  | .discover wellKnownPath homesetProp => do
    let client ← newDavClient lib configured
    let _ ← discoverHomeset lib client wellKnownPath homesetProp
    return ⟨⟩
  | .discoverDirect homesetProp => do
    let client ← newDavClient lib configured
    let _ ← homesetDirect lib client configured homesetProp
    return ⟨⟩
  | .createContact addressbookUrl uid => do
    let _ ← newDavClient lib configured
    let full ← contactUrl configured addressbookUrl (uid ++ ".vcf".toList)
    let _ ← send lib .put full true
    return ⟨⟩
  | .createEvent calendarUrl uid => do
    let _ ← newDavClient lib calendarUrl
    let full ← turnTo (withTrailingSlash calendarUrl ++ (uid ++ ".ics".toList))
    let _ ← send lib .put full true
    return ⟨⟩

/-- The state a run ends in. -/
def DavOperation.finish (configured : Text) (op : DavOperation)
    (server : List DavRequest → Option DavResponse) : DavRun :=
  ((op.run lib configured).outcome { server := server }).2

/-- Every request with the password goes to the configured origin. -/
def CredentialsPinned (configured : Text) (op : DavOperation)
    (server : List DavRequest → Option DavResponse) : Prop :=
  ∀ q ∈ (op.finish lib configured server).sent, q.auth = true →
    lib.originOf q.url = lib.originOf configured

/-- Every server-given URL the run turns to has the configured origin, or none. -/
def ReferencesStay (configured : Text) (op : DavOperation)
    (server : List DavRequest → Option DavResponse) : Prop :=
  ∀ url ∈ (op.finish lib configured server).followed,
    lib.originOf url = none ∨ lib.originOf url = lib.originOf configured

end Operations

/-! ## What a program may send -/

section Steps

variable (lib : UrlLib)

/-- New requests with the password are to URLs of `own` or to URLs turned to; those
turned to, and those of `need`, are asked if they can be. -/
def Steps (own need : Text → Prop) (s t : DavRun) : Prop :=
  ∃ new turned, t.sent = s.sent ++ new ∧ t.followed = s.followed ++ turned ∧
    (∀ q ∈ new, lib.originOf q.url ≠ none) ∧
    (∀ q ∈ new, q.auth = true → own q.url ∨ q.url ∈ turned) ∧
    ∀ url, need url ∨ url ∈ turned →
      lib.originOf url = none ∨ ∃ q ∈ new, q.auth = true ∧ q.url = url

def noUrl : Text → Prop := fun _ => False

/-- `url`, besides those of `own`. -/
def orAt (own : Text → Prop) (url : Text) : Text → Prop := fun v => own v ∨ v = url

def only (url : Text) : Text → Prop := fun v => v = url

variable {lib} {own need : Text → Prop} {α β : Type}

theorem Steps.refl (s : DavRun) : Steps lib own noUrl s s :=
  ⟨[], [], by simp, by simp, by simp, by simp, by simp [noUrl]⟩

theorem Steps.trans {s t u : DavRun} (h : Steps lib own need s t) (h' : Steps lib own noUrl t u) :
    Steps lib own need s u := by
  obtain ⟨new, turned, hsent, hfoll, hreal, hown, hneed⟩ := h
  obtain ⟨new', turned', hsent', hfoll', hreal', hown', hneed'⟩ := h'
  refine ⟨new ++ new', turned ++ turned', ?_, ?_, ?_, ?_, ?_⟩
  · rw [hsent', hsent, List.append_assoc]
  · rw [hfoll', hfoll, List.append_assoc]
  · intro q hq
    rcases List.mem_append.mp hq with hq | hq
    · exact hreal q hq
    · exact hreal' q hq
  · intro q hq hauth
    rcases List.mem_append.mp hq with hq | hq
    · exact (hown q hq hauth).imp_right (List.mem_append_left _)
    · exact (hown' q hq hauth).imp_right (List.mem_append_right _)
  · intro url hurl
    have hcases : (need url ∨ url ∈ turned) ∨ url ∈ turned' := by
      rcases hurl with hurl | hurl
      · exact .inl (.inl hurl)
      · exact (List.mem_append.mp hurl).imp_left .inr
    rcases hcases with hurl | hurl
    · refine (hneed url hurl).imp_right ?_
      rintro ⟨q, hq, hrest⟩
      exact ⟨q, List.mem_append_left _ hq, hrest⟩
    · refine (hneed' url (.inr hurl)).imp_right ?_
      rintro ⟨q, hq, hrest⟩
      exact ⟨q, List.mem_append_right _ hq, hrest⟩

theorem Steps.weaken {own' need' : Text → Prop} {s t : DavRun} (h : Steps lib own need s t)
    (hown : ∀ v, own v → own' v) (hneed : ∀ v, need' v → need v) : Steps lib own' need' s t := by
  obtain ⟨new, turned, hsent, hfoll, hreal, hauth, hasked⟩ := h
  refine ⟨new, turned, hsent, hfoll, hreal, ?_, ?_⟩
  · intro q hq ha
    exact (hauth q hq ha).imp_left (hown _)
  · intro url hurl
    exact hasked url (hurl.imp_left (hneed url))

theorem steps_bind {m : DavM α} {f : α → DavM β} (hm : Keeps (Steps lib own need) m)
    (hf : ∀ a, Keeps (Steps lib own noUrl) (f a)) : Keeps (Steps lib own need) (m >>= f) := by
  intro s
  apply outcome_bind_cases (P := fun t => Steps lib own need s t) (hm s)
  intro a t hret
  exact (hm.returns hret).trans (hf a t)

theorem steps_pure (a : α) : Keeps (Steps lib own noUrl) (pure a : DavM α) :=
  keeps_pure Steps.refl a

theorem steps_throw (e : DavError) : Keeps (Steps lib own noUrl) (throw e : DavM α) :=
  keeps_throw Steps.refl e

theorem outcome_receive (s : DavRun) : (receive.outcome s).2 = s := by
  unfold receive
  rw [outcome_bind, outcome_get]
  dsimp only
  split
  · rfl
  · rfl

theorem outcome_send (method : DavMethod) (url : Text) (auth : Bool) (s : DavRun) :
    ((send lib method url auth).outcome s).2 =
      if (lib.originOf url).isNone then s
      else { s with sent := s.sent ++ [⟨method, url, auth⟩] } := by
  unfold send
  split
  · rfl
  · rw [outcome_bind, outcome_modify]
    exact outcome_receive _

theorem steps_send (method : DavMethod) (url : Text) :
    Keeps (Steps lib (orAt own url) (only url)) (send lib method url true) := by
  intro s
  rw [outcome_send]
  split
  case isTrue hnone =>
    refine ⟨[], [], by simp, by simp, by simp, by simp, ?_⟩
    intro v hv
    rcases hv with rfl | hv
    · exact .inl (Option.isNone_iff_eq_none.mp hnone)
    · cases hv
  case isFalse hsome =>
    refine ⟨[⟨method, url, true⟩], [], rfl, by simp, ?_, ?_, ?_⟩
    · intro q hq
      obtain rfl := List.mem_singleton.mp hq
      exact fun h => hsome (Option.isNone_iff_eq_none.mpr h)
    · intro q hq _
      obtain rfl := List.mem_singleton.mp hq
      exact .inl (.inr rfl)
    · intro v hv
      rcases hv with rfl | hv
      · exact .inr ⟨_, List.mem_singleton_self _, rfl, rfl⟩
      · cases hv

theorem steps_send_bare (method : DavMethod) (url : Text) :
    Keeps (Steps lib own noUrl) (send lib method url false) := by
  intro s
  rw [outcome_send]
  split
  case isTrue => exact Steps.refl s
  case isFalse hsome =>
    refine ⟨[⟨method, url, false⟩], [], rfl, by simp, ?_, ?_, by simp [noUrl]⟩
    · intro q hq
      obtain rfl := List.mem_singleton.mp hq
      exact fun h => hsome (Option.isNone_iff_eq_none.mpr h)
    · intro q hq hauth
      obtain rfl := List.mem_singleton.mp hq
      cases hauth

/-! ## Ways to a URL -/

/-- A program that gives the URL for what follows: one of `own`, or one it turns to. -/
def Enters (lib : UrlLib) (own : Text → Prop) (enter : DavM Text) : Prop :=
  ∀ (β : Type) (f : Text → DavM β),
    (∀ url, Keeps (Steps lib (orAt own url) (only url)) (f url)) →
      Keeps (Steps lib own noUrl) (enter >>= f)

theorem enters_pure {url : Text} (hurl : own url) : Enters lib own (pure url) := by
  intro β f hf s
  rw [outcome_bind, outcome_pure]
  refine (hf url s).weaken ?_ ?_
  · rintro v (hv | rfl)
    · exact hv
    · exact hurl
  · intro v hv
    cases hv

theorem enters_turnTo (url : Text) : Enters lib own (turnTo url) := by
  intro β f hf s
  have hret : Returns (turnTo url) s url { s with followed := s.followed ++ [url] } := rfl
  rw [outcome_bind, hret]
  obtain ⟨new, turned, hsent, hfoll, hreal, hown, hneed⟩ :=
    hf url { s with followed := s.followed ++ [url] }
  refine ⟨new, url :: turned, hsent, ?_, hreal, ?_, ?_⟩
  · rw [hfoll]
    simp
  · intro q hq hauth
    rcases hown q hq hauth with (h | h) | h
    · exact .inl h
    · exact .inr (h ▸ List.mem_cons_self)
    · exact .inr (List.mem_cons_of_mem _ h)
  · intro v hv
    rcases hv with hv | hv
    · cases hv
    · apply hneed
      exact (List.mem_cons.mp hv).imp_left id

/-! ## The client's programs -/

theorem steps_propfindRounds (client : DavClient) (rounds : Nat) {enter : DavM Text}
    (henter : Enters lib own enter) :
    Keeps (Steps lib own noUrl) (propfindRounds lib client rounds enter) := by
  induction rounds generalizing own enter with
  | zero => exact steps_throw _
  | succ rounds ih =>
    apply henter
    intro url
    apply steps_bind (steps_send _ url)
    intro resp
    split
    · exact steps_pure _
    · exact steps_throw _
    · split
      · exact steps_throw _
      · exact ih (enters_turnTo _)

theorem steps_homesetDirect (client : DavClient) {base : Text} (hbase : own base)
    (homesetProp : String) :
    Keeps (Steps lib own noUrl) (homesetDirect lib client base homesetProp) := by
  apply steps_bind (keeps_attempt (steps_propfindRounds client 3 (enters_pure hbase)))
  intro body
  apply steps_bind
  · apply steps_propfindRounds
    cases (body.bind principalOf).map (lib.resolveHref base) with
    | none => exact enters_pure hbase
    | some principal => exact enters_turnTo principal
  · intro body
    split
    · exact steps_throw _
    · exact steps_pure _

theorem steps_discoverHomeset (client : DavClient)
    (hown : ∀ path, own (lib.serialize (client.origin ++ '/' :: path))) (wellKnownPath : Text)
    (homesetProp : String) :
    Keeps (Steps lib own noUrl) (discoverHomeset lib client wellKnownPath homesetProp) := by
  apply steps_bind (steps_send_bare _ _)
  intro _
  exact steps_homesetDirect client (hown wellKnownPath) homesetProp

theorem steps_report (url : Text) : Keeps (Steps lib (orAt own url) (only url)) (report lib url) := by
  apply steps_bind (steps_send _ url)
  intro resp
  split
  · exact steps_pure _
  · exact steps_throw _

theorem steps_more {url : Text} {m : DavM α} (hm : Keeps (Steps lib (orAt own url) (only url)) m) :
    Keeps (Steps lib (orAt own url) noUrl) m :=
  fun s => (hm s).weaken (fun _ h => h) (fun _ h => h.elim)

theorem steps_listEtags (url : Text) :
    Keeps (Steps lib (orAt own url) (only url)) (listEtags lib url) := by
  apply steps_bind (steps_send _ url)
  intro _
  exact steps_pure _

theorem steps_davDelta (url : Text) :
    Keeps (Steps lib (orAt own url) (only url)) (davDelta lib url) := by
  apply steps_bind (keeps_attempt (steps_report url))
  intro body
  split
  · exact steps_pure _
  · apply steps_bind (steps_more (steps_listEtags url))
    intro _
    exact steps_pure _

theorem steps_multiget (url : Text) (chunks : List (List Text)) :
    Keeps (Steps lib (orAt own url) noUrl) (multiget lib url chunks) := by
  induction chunks with
  | nil => exact steps_pure _
  | cons chunk chunks ih =>
    apply steps_bind (steps_more (steps_report url))
    intro _
    apply steps_bind ih
    intro _
    exact steps_pure _

theorem steps_syncCollection (url : Text) :
    Keeps (Steps lib own noUrl) (syncCollection lib url) := by
  apply enters_turnTo url
  intro url
  apply steps_bind
  · apply steps_bind (steps_davDelta url)
    intro delta
    apply steps_bind (steps_multiget url _)
    intro _
    exact steps_pure _
  · intro _
    exact steps_pure _

theorem steps_forEach_syncCollection (urls : List Text) :
    Keeps (Steps lib own noUrl) (forEach (syncCollection lib) urls) :=
  keeps_forEach Steps.refl (fun _ _ _ h h' => h.trans h') fun url _ => steps_syncCollection url

theorem steps_listCollections (home : Text) (resourcetype : String) :
    Keeps (Steps lib (orAt own home) (only home)) (listCollections lib home resourcetype) := by
  apply steps_bind (steps_send _ home)
  intro _
  exact steps_pure _

theorem steps_homeCollections (client : DavClient)
    (hown : ∀ path, own (lib.serialize (client.origin ++ '/' :: path))) {stored : Option Text}
    (hstored : ∀ url, stored = some url → own url) (wellKnown : Text)
    (homesetProp resourcetype : String) :
    Keeps (Steps lib own noUrl)
      (homeCollections lib client stored wellKnown homesetProp resourcetype) := by
  unfold homeCollections resolveHomeset
  split
  case h_1 url hurl =>
    intro s
    rw [outcome_bind, outcome_pure]
    apply enters_pure (hstored url (Option.filter_eq_some_iff.mp hurl).1)
    intro home
    exact steps_listCollections home resourcetype
  case h_2 =>
    intro s
    apply outcome_bind_cases (P := fun t => Steps lib own noUrl s t)
    · apply steps_bind (steps_discoverHomeset client hown wellKnown homesetProp)
      intro _
      exact steps_pure _
    · intro enter t hret
      obtain ⟨home, u, hdisc, hpure⟩ := returns_bind.mp hret
      obtain ⟨rfl, rfl⟩ := returns_pure.mp hpure
      refine Steps.trans ((steps_discoverHomeset client hown wellKnown homesetProp).returns hdisc) ?_
      apply enters_turnTo home
      intro home
      exact steps_listCollections home resourcetype

theorem returns_newDavClient {url : Text} {s t : DavRun} {client : DavClient}
    (h : Returns (newDavClient lib url) s client t) :
    lib.originOf url = some client.origin ∧ t = s := by
  unfold newDavClient at h
  split at h
  · split at h
    · cases h
    · rename_i origin horigin
      obtain ⟨rfl, rfl⟩ := returns_pure.mp h
      exact ⟨horigin, rfl⟩
  · cases h

theorem outcome_newDavClient (url : Text) (s : DavRun) : ((newDavClient lib url).outcome s).2 = s := by
  unfold newDavClient
  split
  · split
    · rfl
    · rfl
  · rfl

theorem steps_newDavClient {url : Text} {f : DavClient → DavM α}
    (hf : ∀ client, lib.originOf url = some client.origin → Keeps (Steps lib own noUrl) (f client)) :
    Keeps (Steps lib own noUrl) (newDavClient lib url >>= f) := by
  intro s
  apply outcome_bind_cases (P := fun t => Steps lib own noUrl s t)
  · rw [outcome_newDavClient]
    exact Steps.refl s
  · intro client t hret
    obtain ⟨horigin, rfl⟩ := returns_newDavClient hret
    exact hf client horigin t

end Steps

/-! ## The result -/

section Pinned

variable {lib : UrlLib}

/-- The URLs of the configured origin. -/
def AtOrigin (lib : UrlLib) (configured : Text) : Text → Prop :=
  fun url => lib.originOf url = lib.originOf configured

theorem atOrigin_wellKnown {configured : Text} {client : DavClient}
    (h : lib.originOf configured = some client.origin) (path : Text) :
    AtOrigin lib configured (lib.serialize (client.origin ++ '/' :: path)) := by
  rw [AtOrigin, lib.serialize_origin, lib.origin_path configured client.origin path h, h]

theorem steps_homeCollections_configured {configured : Text} {client : DavClient}
    (h : lib.originOf configured = some client.origin) (discovered : Bool) (wellKnown : Text)
    (homesetProp resourcetype : String) :
    Keeps (Steps lib (AtOrigin lib configured) noUrl)
      (homeCollections lib client (if discovered then none else some configured) wellKnown
        homesetProp resourcetype) := by
  apply steps_homeCollections client (atOrigin_wellKnown h)
  intro url hurl
  cases discovered with
  | true => cases hurl
  | false =>
    cases hurl
    rfl

/-- An operation asks, with the password, URLs of the configured origin and URLs it turns
to, and it does ask the latter. -/
theorem steps_run (configured : Text) (op : DavOperation) :
    Keeps (Steps lib (AtOrigin lib configured) noUrl) (op.run lib configured) := by
  cases op with
  | syncCarddav discovered =>
    apply steps_newDavClient
    intro client horigin
    apply steps_bind (steps_homeCollections_configured horigin discovered _ _ _)
    intro found
    exact steps_forEach_syncCollection _
  | syncCaldav discovered =>
    apply steps_newDavClient
    intro client horigin
    apply steps_bind (steps_homeCollections_configured horigin discovered _ _ _)
    intro found
    exact steps_forEach_syncCollection _
  | discover wellKnownPath homesetProp =>
    apply steps_newDavClient
    intro client horigin
    apply steps_bind (steps_discoverHomeset client (atOrigin_wellKnown horigin) _ _)
    intro _
    exact steps_pure _
  | discoverDirect homesetProp =>
    apply steps_newDavClient
    intro client _
    have hbase : AtOrigin lib configured configured := rfl
    apply steps_bind (steps_homesetDirect client hbase homesetProp)
    intro _
    exact steps_pure _
  | createContact addressbookUrl uid =>
    apply steps_newDavClient
    intro client horigin
    have henter : Enters lib (AtOrigin lib configured)
        (contactUrl configured addressbookUrl (uid ++ ".vcf".toList)) := by
      cases addressbookUrl with
      | none =>
        apply enters_pure
        rw [AtOrigin, lib.origin_child configured client.origin _ horigin, horigin]
      | some url => exact enters_turnTo _
    apply henter
    intro full
    apply steps_bind (steps_send _ full)
    intro _
    exact steps_pure _
  | createEvent calendarUrl uid =>
    apply steps_newDavClient
    intro client _
    apply enters_turnTo
    intro full
    apply steps_bind (steps_send _ full)
    intro _
    exact steps_pure _

end Pinned

/-! ## A server that names another host -/

def https : Text := "https://".toList

def hostOf (rest : Text) : Text := rest.takeWhile (· ≠ '/')

/-- The origins of plain `https` URLs. -/
def plainOrigin (url : Text) : Option Text :=
  if https.isPrefixOf url then
    let host := hostOf (url.drop 8)
    if host = [] then none
    else some (https ++ if ':' ∈ host then host else host ++ ":443".toList)
  else none

theorem plainOrigin_eq_some {url origin : Text} (h : plainOrigin url = some origin) :
    ∃ rest, url = https ++ rest ∧ hostOf rest ≠ [] ∧
      origin = https ++ (if ':' ∈ hostOf rest
        then hostOf rest else hostOf rest ++ ":443".toList) := by
  unfold plainOrigin at h
  split at h
  case isFalse => cases h
  case isTrue hpre =>
    obtain ⟨rest, rfl⟩ := List.isPrefixOf_iff_prefix.mp hpre
    have hdrop : (https ++ rest).drop 8 = rest := List.drop_left' rfl
    rw [hdrop] at h
    dsimp only at h
    split at h
    case isTrue => cases h
    case isFalse hne => exact ⟨rest, rfl, hne, (Option.some.inj h).symm⟩

/-- A host is read up to the first slash. -/
theorem plainOrigin_host {host : Text} (hne : host ≠ []) (hslash : '/' ∉ host) (path : Text) :
    plainOrigin (https ++ (host ++ '/' :: path)) =
      some (https ++ if ':' ∈ host then host else host ++ ":443".toList) := by
  have hall : ∀ c ∈ host, decide (c ≠ '/') = true := by
    intro c hc
    exact decide_eq_true fun e => hslash (e ▸ hc)
  have hdrop : (https ++ (host ++ '/' :: path)).drop 8 = host ++ '/' :: path :=
    List.drop_left' rfl
  have hhost : hostOf (host ++ '/' :: path) = host := by
    rw [hostOf, List.takeWhile_append_of_pos hall]
    simp
  unfold plainOrigin
  rw [if_pos (List.isPrefixOf_iff_prefix.mpr ⟨_, rfl⟩), hdrop, hhost]
  exact if_neg hne

theorem slash_not_mem_hostOf (rest : Text) : '/' ∉ hostOf rest := by
  intro hm
  have := List.all_takeWhile (p := fun c => decide (c ≠ '/')) (l := rest)
  exact absurd (List.all_eq_true.mp this _ hm) (by decide)

theorem split_host (rest : Text) : hostOf rest = rest ∨ ∃ path, rest = hostOf rest ++ '/' :: path := by
  induction rest with
  | nil => exact .inl rfl
  | cons c rest ih =>
    by_cases hc : c = '/'
    · subst hc
      exact .inr ⟨rest, rfl⟩
    · have hhost : hostOf (c :: rest) = c :: hostOf rest := by simp [hostOf, hc]
      rw [hhost]
      rcases ih with ih | ⟨path, ih⟩
      · exact .inl (by rw [ih])
      · exact .inr ⟨path, congrArg (c :: ·) ih⟩

def plainUrls : UrlLib where
  originOf := plainOrigin
  validServerUrl := fun url => (plainOrigin url).isSome
  join := fun base href => (plainOrigin base).map fun origin =>
    if href.head? = some '/' then origin ++ href else withTrailingSlash base ++ href
  serialize := fun url => url
  serialize_origin := fun _ => rfl
  origin_path := by
    intro url origin path h
    obtain ⟨rest, rfl, hne, rfl⟩ := plainOrigin_eq_some h
    have hslash := slash_not_mem_hostOf rest
    split
    case isTrue hport =>
      rw [List.append_assoc, plainOrigin_host hne hslash, if_pos hport]
    case isFalse hport =>
      have hslash' : '/' ∉ hostOf rest ++ ":443".toList := by
        intro hm
        rcases List.mem_append.mp hm with hm | hm
        · exact hslash hm
        · exact absurd hm (by decide)
      rw [List.append_assoc, plainOrigin_host (by simp) hslash', if_pos (by simp)]
  origin_child := by
    intro url origin name h
    obtain ⟨rest, rfl, hne, rfl⟩ := plainOrigin_eq_some h
    have hslash := slash_not_mem_hostOf rest
    have hurl : ∃ path, withTrailingSlash (https ++ rest) ++ name =
        https ++ (hostOf rest ++ '/' :: path) := by
      unfold withTrailingSlash
      rcases split_host rest with hhost | ⟨path, hpath⟩
      · have hrest : rest ≠ [] := by
          rintro rfl
          exact hne rfl
        rw [hhost] at hslash ⊢
        rw [if_neg]
        · exact ⟨name, by simp⟩
        · rw [List.getLast?_append_of_ne_nil _ hrest]
          intro hlast
          exact hslash (List.mem_of_getLast? hlast)
      · have htext : ∀ tail, https ++ rest ++ tail = https ++ (hostOf rest ++ '/' :: (path ++ tail)) := by
          intro tail
          conv_lhs => rw [hpath]
          simp
        split
        · exact ⟨path ++ name, htext name⟩
        · refine ⟨path ++ '/' :: name, ?_⟩
          rw [List.append_assoc, List.singleton_append]
          exact htext ('/' :: name)
    obtain ⟨path, hpath⟩ := hurl
    rw [hpath, plainOrigin_host hne hslash]

/-- The first answer lists an address book on another host; all others are empty. -/
def strayServer (sent : List DavRequest) : Option DavResponse :=
  match sent with
  | [_] => some
      { body := ("<response><href>https://evil.example/</href>" ++
          "<resourcetype><addressbook/></resourcetype></response>").toList }
  | _ => some {}

end Lyra
