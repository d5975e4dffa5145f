import Lyra.Net.Addresses
import Lyra.Store.Codec
import Lyra.Lib.Requests

/-!
# Remote fetches

The image proxy (`media.rs`) and the ICS feed fetch (`ics.rs`).  Both resolve the host of a URL
and refuse it when every address is blocked; then the HTTP client resolves the host again and
connects to one of its own addresses.  What DNS and the servers answer is decided by a network
that knows everything so far; which address the client takes is left open.

* `never_blocked_iff`: no connection to a blocked address is ever opened exactly when the
  client's own resolutions give no blocked address;
* `blocked_reached`: one name with a public and a private address.
-/

namespace Lyra.Net

open Lyra.Lib

/-! ## URLs -/

/-- The host of a URL.  `host_str` is its text; no domain of an http(s) URL is an address's. -/
inductive Host
  | domain (name : Text)
  | ipv4 (addr : Ipv4Addr)
  | ipv6 (addr : Ipv6Addr)
  deriving DecidableEq, Repr

structure Url where
  scheme : Text
  host : Option Host
  /-- `port_or_known_default`. -/
  port : Option Nat
  deriving DecidableEq, Repr

/-- The libraries: URLs, gzip and UTF-8. -/
structure WebLib where
  parse : Text → Option Url
  parseError : Text → Text
  /-- A reference joined to a URL, written out. -/
  join : Text → Text → Option Text
  gunzip : List UInt8 → Option (List UInt8)
  utf8Lossy : List UInt8 → Text

/-- The errors, without what the libraries and the client say in them. -/
inductive FetchError
  | invalidInput (text : Text)
  | internal (text : Text)
  deriving DecidableEq, Repr

def toAsciiLowercase (s : Text) : Text := s.map Char.toLower

def hostIsLocal : Host → Bool
  | .domain name =>
    let bare := toAsciiLowercase name
    bare = "localhost".toList || ".localhost".toList.isSuffixOf bare
  | .ipv4 addr => isBlockedAddr (.v4 addr)
  | .ipv6 addr => isBlockedAddr (.v6 addr)

section Urls

variable (lib : WebLib)

/-- `validate_server_url`: the error, if there is one. -/
def validateServerUrl (url : Text) : Option Text :=
  let quoted := "server URL '".toList ++ url ++ "'".toList
  match lib.parse url with
  | none => some ("invalid ".toList ++ quoted ++ ": ".toList ++ lib.parseError url)
  | some parsed =>
    if parsed.scheme ≠ "http".toList ∧ parsed.scheme ≠ "https".toList then
      some (quoted ++ " uses unsupported scheme '".toList ++ parsed.scheme ++
        "': use https://".toList)
    else
      match parsed.host with
      | none => some (quoted ++ " has no host".toList)
      | some host =>
        if parsed.scheme = "http".toList ∧ hostIsLocal host = false then
          some (quoted ++ " uses insecure http:// for a public host: use https://".toList)
        else none

/-- `webcal://` and `webcals://` are https. -/
def httpsOfWebcal (trimmed : Text) : Text :=
  let lower := toAsciiLowercase trimmed
  if "webcal://".toList.isPrefixOf lower then "https://".toList ++ trimmed.drop 9
  else if "webcals://".toList.isPrefixOf lower then "https://".toList ++ trimmed.drop 10
  else trimmed

def normalizeIcsUrl (raw : Text) : Except Text Text :=
  let trimmed := trimText raw
  if trimmed = [] then .error "URL is empty".toList
  else
    let https := httpsOfWebcal trimmed
    match validateServerUrl lib https with
    | some e => .error e
    | none =>
      match lib.parse https with
      | none => .error (lib.parseError https)
      | some parsed =>
        if parsed.scheme ≠ "https".toList then
          .error "ICS subscriptions require https:// (or webcal://)".toList
        else
          match parsed.host with
          | none => .error "ICS URL has no host".toList
          | some host =>
            if hostIsLocal host then
              .error "ICS subscriptions cannot target private or loopback hosts".toList
            else .ok https

end Urls

/-! ## Responses -/

structure Response where
  status : Nat
  location : Option Text := none
  contentType : Option Text := none
  etag : Option Text := none
  lastModified : Option Text := none
  /-- The pieces of the body; `none` where reading fails. -/
  chunks : List (Option (List UInt8)) := []
  deriving DecidableEq, Repr

def Response.isRedirection (resp : Response) : Bool := 300 ≤ resp.status && resp.status < 400

def Response.isSuccess (resp : Response) : Bool := 200 ≤ resp.status && resp.status < 300

inductive UpstreamOutcome
  | image (bytes : List UInt8) (contentType : Text)
  | httpStatus (code : Nat)
  deriving DecidableEq, Repr

def maxUpstreamBytes : Nat := 10 * 1024 * 1024

def maxIcsBytes : Nat := 2 * 1024 * 1024

def maxRedirects : Nat := 3

/-- The body, read up to a cap. -/
def readBody (cap : Nat) (bytes : List UInt8) :
    List (Option (List UInt8)) → Except FetchError (List UInt8)
  | [] => .ok bytes
  | none :: _ => .error (.internal "upstream read".toList)
  | some chunk :: rest =>
    if bytes.length + chunk.length > cap then
      .error (.invalidInput "upstream image too large".toList)
    else readBody cap (bytes ++ chunk) rest

/-- The content type without its parameters. -/
def Response.mediaType (resp : Response) : Text :=
  trimText ((resp.contentType.getD "application/octet-stream".toList).takeWhile (· ≠ ';'))

/-- GIF, PNG, JPEG and WEBP. -/
def looksLikeImage (contentType : Text) (bytes : List UInt8) : Bool :=
  "image/".toList.isPrefixOf (toAsciiLowercase contentType) && 4 ≤ bytes.length &&
    ([[0x47, 0x49, 0x46, 0x38], [0x89, 0x50, 0x4e, 0x47], [0xff, 0xd8, 0xff],
      [0x52, 0x49, 0x46, 0x46]] : List (List UInt8)).any (·.isPrefixOf bytes)

def decodeIcsBytes (lib : WebLib) (bytes : List UInt8) : Except FetchError Text :=
  if [0x1f, 0x8b].isPrefixOf bytes then
    match lib.gunzip bytes with
    | none => .error (.internal "ics gzip".toList)
    | some out =>
      if out.length > maxIcsBytes then .error (.invalidInput "ICS feed too large".toList)
      else .ok (lib.utf8Lossy out)
  else .ok (lib.utf8Lossy bytes)

/-! ## The fetches -/

inductive NetCall
  /-- A host name to be resolved. -/
  | lookup (host : Host) (port : Nat)
  /-- The HTTP client's GET. -/
  | get (url : Text)
  deriving DecidableEq, Repr

abbrev NetCall.Answer : NetCall → Type
  | .lookup .. => Option (List IpAddr)
  | .get _ => Option Response

abbrev NetProg := Prog NetCall NetCall.Answer

def ask (o : NetCall) : NetProg o.Answer := Prog.ask o

def lookupHost (host : Host) (port : Nat) : NetProg (Option (List IpAddr)) :=
  match host with
  | .ipv4 addr => return some [.v4 addr]
  -- the text of an IPv6 host has brackets and is resolved like a name
  | host => ask (.lookup host port)

/-- What `validate_outbound_url` makes of the addresses. -/
def judgeAddrs : Option (List IpAddr) → Option FetchError
  | none => some (.invalidInput "proxy target host lookup failed".toList)
  | some addrs =>
    if filterPublicAddrs addrs = [] then
      some (.invalidInput "proxy target blocked by SSRF policy".toList)
    else none

section Fetches

variable (lib : WebLib)

/-- `validate_outbound_url`: the error, if there is one. -/
def validateOutboundUrl (url : Text) : NetProg (Option FetchError) :=
  match lib.parse url with
  | none => return some (.invalidInput "invalid proxy target URL".toList)
  | some parsed =>
    if parsed.scheme ≠ "http".toList ∧ parsed.scheme ≠ "https".toList then
      return some (.invalidInput "proxy target must be http(s)".toList)
    else
      match parsed.host with
      | none => return some (.invalidInput "proxy target missing host".toList)
      | some host => return judgeAddrs (← lookupHost host (parsed.port.getD 443))

/-- The rounds of `fetch_with_accept_status`. -/
def fetchRounds (accept : Text → List UInt8 → Bool) :
    Nat → Text → NetProg (Except FetchError UpstreamOutcome)
  | 0, _ => return .error (.invalidInput "too many redirects".toList)
  | rounds + 1, current => do
    match ← validateOutboundUrl lib current with
    | some e => return .error e
    | none =>
      match ← ask (.get current) with
      | none => return .error (.internal "upstream fetch failed".toList)
      | some resp =>
        if resp.isRedirection then
          match resp.location with
          | some next => fetchRounds accept rounds ((lib.join current next).getD next)
          | none => return .error (.invalidInput "too many redirects".toList)
        else if !resp.isSuccess then return .ok (.httpStatus resp.status)
        else
          match readBody maxUpstreamBytes [] resp.chunks with
          | .error e => return .error e
          | .ok bytes =>
            if accept resp.mediaType bytes then return .ok (.image bytes resp.mediaType)
            else return .error (.invalidInput "upstream not an image".toList)

def fetchWithAcceptStatus (accept : Text → List UInt8 → Bool) (url : Text) :
    NetProg (Except FetchError UpstreamOutcome) :=
  fetchRounds lib accept (maxRedirects + 1) url

/-- `fetch_with_accept`: the bytes and their content type. -/
def fetchWithAccept (accept : Text → List UInt8 → Bool) (url : Text) :
    NetProg (Except FetchError (List UInt8 × Text)) := do
  match ← fetchWithAcceptStatus lib accept url with
  | .error e => return .error e
  | .ok (.image bytes contentType) => return .ok (bytes, contentType)
  | .ok (.httpStatus code) =>
    return .error (.internal ("upstream non-success status ".toList ++ decimal code))

def fetchUpstream (url : Text) : NetProg (Except FetchError (List UInt8 × Text)) :=
  fetchWithAccept lib looksLikeImage url

/-- `fetch_ics_body`: the feed, its etag and when it was modified. -/
def fetchIcsBody (raw : Text) :
    NetProg (Except FetchError (Text × Option Text × Option Text)) :=
  match normalizeIcsUrl lib raw with
  | .error e => return .error (.invalidInput e)
  | .ok url => do
    match ← validateOutboundUrl lib url with
    | some e => return .error e
    | none =>
      match ← ask (.get url) with
      | none => return .error (.internal "ics fetch failed".toList)
      | some resp =>
        if !resp.isSuccess then
          return .error (.internal ("ics fetch HTTP ".toList ++ decimal resp.status))
        else
          match resp.chunks.mapM id with
          | none => return .error (.internal "ics read".toList)
          | some chunks =>
            if chunks.flatten.length > maxIcsBytes then
              return .error (.invalidInput "ICS feed too large".toList)
            else
              match decodeIcsBytes lib chunks.flatten with
              | .error e => return .error e
              | .ok text => return .ok (text, resp.etag, resp.lastModified)

end Fetches

/-! ## The network -/

inductive NetEvent
  | lookedUp (host : Host) (port : Nat)
  | opened (url : Text) (addr : IpAddr)
  deriving DecidableEq, Repr

/-- DNS and the servers, knowing what has happened. -/
structure Internet where
  lookup : List NetEvent → Host → Nat → Option (List IpAddr)
  /-- The client's own resolution of a name. -/
  resolve : List NetEvent → Text → List IpAddr
  answer : List NetEvent → Text → IpAddr → Option Response

/-- Whom the client may connect to. -/
def Internet.clientAddrs (net : Internet) (events : List NetEvent) : Host → List IpAddr
  | .domain name => net.resolve events name
  | .ipv4 addr => [.v4 addr]
  | .ipv6 addr => [.v6 addr]

def WebLib.hostOf (lib : WebLib) (url : Text) : Option Host := (lib.parse url).bind (·.host)

/-- One call; the client takes the address with the number `pick`, and fails without one. -/
def netExec (lib : WebLib) (net : Internet) (pick : Nat) :
    (o : NetCall) → List NetEvent → Option (List NetEvent × o.Answer)
  | .lookup host port, events => some (.lookedUp host port :: events, net.lookup events host port)
  | .get url, events =>
    match (lib.hostOf url).bind fun host => (net.clientAddrs events host)[pick]? with
    | none => some (events, none)
    | some addr => some (.opened url addr :: events, net.answer events url addr)

inductive FetchKind
  | image (url : Text)
  | feed (url : Text)

def fetchService (lib : WebLib) (net : Internet) :
    Service (List NetEvent) NetCall NetCall.Answer FetchKind Nat Empty where
  init events := events = []
  exec _ pick o events := netExec lib net pick o events
  request
    | .image url => do
      let _ ← fetchUpstream lib url
      return ⟨⟩
    | .feed url => do
      let _ ← fetchIcsBody lib url
      return ⟨⟩
  arrive _ _ events := events
  env e _ := nomatch e

abbrev NetPool := Pool (List NetEvent) NetCall NetCall.Answer

/-- The pools of all runs of fetches over this network. -/
def Fetching (lib : WebLib) (net : Internet) (p : NetPool) : Prop :=
  (fetchService lib net).system.Reachable (fun _ _ => True) p

/-- No connection to a blocked address was opened. -/
def NoneBlocked (events : List NetEvent) : Prop :=
  ∀ url addr, .opened url addr ∈ events → isBlockedAddr addr = false

/-- Whenever a fetch sends a request to a host other than an IPv4 address, the client's own
resolution gives no blocked address. -/
def ResolvesPublic (lib : WebLib) (net : Internet) : Prop :=
  ∀ p, Fetching lib net p → ∀ i url k, p.running i = some (.call (.get url) k) →
    ∀ host, lib.hostOf url = some host → (∀ addr, host ≠ .ipv4 addr) →
      ∀ addr ∈ net.clientAddrs p.shared host, isBlockedAddr addr = false

/-! ## IPv4 hosts -/

variable {lib : WebLib} {net : Internet}

/-- A request to an IPv4 address goes to one that is not blocked. -/
def Ipv4Public (lib : WebLib) : NetCall → Prop
  | .lookup .. => True
  | .get url => ∀ addr, lib.hostOf url = some (.ipv4 addr) → addr.isBlocked = false

/-- Calls after a validation. -/
theorem validate_calls {α : Type} {url : Text} {f : Option FetchError → NetProg α}
    (herror : ∀ e, (f (some e)).Calls (Ipv4Public lib))
    (hok : Ipv4Public lib (.get url) → (f none).Calls (Ipv4Public lib)) :
    (validateOutboundUrl lib url >>= f).Calls (Ipv4Public lib) := by
  unfold validateOutboundUrl
  cases hparse : lib.parse url with
  | none => exact herror _
  | some parsed =>
    dsimp only
    split
    · exact herror _
    · cases hhost : parsed.host with
      | none => exact herror _
      | some host =>
        have hof : lib.hostOf url = some host := by
          unfold WebLib.hostOf
          rw [hparse]
          exact hhost
        have hname : (∀ addr, host ≠ .ipv4 addr) → ∀ answer,
            (f (judgeAddrs answer)).Calls (Ipv4Public lib) := by
          intro hne answer
          cases hjudged : judgeAddrs answer with
          | some e => exact herror e
          | none =>
            refine hok ?_
            intro addr haddr
            rw [hof] at haddr
            exact absurd (Option.some.inj haddr) (hne addr)
        cases host with
        | domain name => exact ⟨trivial, hname fun _ h => nomatch h⟩
        | ipv6 addr => exact ⟨trivial, hname fun _ h => nomatch h⟩
        | ipv4 addr =>
          show (f (judgeAddrs (some [.v4 addr]))).Calls (Ipv4Public lib)
          cases hblocked : addr.isBlocked with
          | true =>
            have hjudged : judgeAddrs (some [.v4 addr]) =
                some (.invalidInput "proxy target blocked by SSRF policy".toList) := by
              refine if_pos (List.filter_eq_nil_iff.mpr ?_)
              intro a ha
              obtain rfl := List.mem_singleton.mp ha
              show ¬ (!addr.isBlocked) = true
              rw [hblocked]
              decide
            rw [hjudged]
            exact herror _
          | false =>
            have hpublic : Ipv4Public lib (.get url) := by
              intro addr' haddr
              rw [hof] at haddr
              obtain rfl := Host.ipv4.inj (Option.some.inj haddr)
              exact hblocked
            cases hjudged : judgeAddrs (some [.v4 addr]) with
            | some e => exact herror e
            | none => exact hok hpublic

theorem fetchRounds_calls (accept : Text → List UInt8 → Bool) (rounds : Nat) (current : Text) :
    (fetchRounds lib accept rounds current).Calls (Ipv4Public lib) := by
  induction rounds generalizing current with
  | zero => trivial
  | succ rounds ih =>
    unfold fetchRounds
    apply validate_calls
    · intro e
      trivial
    · intro hpublic
      apply Prog.calls_bind (Prog.calls_ask hpublic)
      intro resp
      cases resp with
      | none => trivial
      | some resp =>
        dsimp only
        split
        · split
          · exact ih _
          · trivial
        · split
          · trivial
          · split
            · trivial
            · split
              · trivial
              · trivial

theorem fetchUpstream_calls (url : Text) : (fetchUpstream lib url).Calls (Ipv4Public lib) := by
  apply Prog.calls_bind (fetchRounds_calls looksLikeImage (maxRedirects + 1) url)
  intro outcome
  split
  · trivial
  · trivial
  · trivial

theorem fetchIcsBody_calls (raw : Text) : (fetchIcsBody lib raw).Calls (Ipv4Public lib) := by
  unfold fetchIcsBody
  split
  · trivial
  · apply validate_calls
    · intro e
      trivial
    · intro hpublic
      apply Prog.calls_bind (Prog.calls_ask hpublic)
      intro resp
      cases resp with
      | none => trivial
      | some resp =>
        dsimp only
        repeat' split
        all_goals trivial

theorem request_calls (kind : FetchKind) :
    ((fetchService lib net).request kind).Calls (Ipv4Public lib) := by
  cases kind with
  | image url => exact Prog.calls_bind (fetchUpstream_calls url) fun _ => trivial
  | feed url => exact Prog.calls_bind (fetchIcsBody_calls url) fun _ => trivial

/-! ## The whole run -/

/-- What a call may open. -/
theorem netExec_opened {pick : Nat} {o : NetCall} {events events' : List NetEvent} {r : o.Answer}
    (h : netExec lib net pick o events = some (events', r)) {url : Text} {addr : IpAddr}
    (hopened : .opened url addr ∈ events') : .opened url addr ∈ events ∨
      o = .get url ∧ ∃ host, lib.hostOf url = some host ∧ addr ∈ net.clientAddrs events host := by
  cases o with
  | lookup host port =>
    obtain ⟨rfl, _⟩ := Prod.mk.inj (Option.some.inj h)
    rcases List.mem_cons.mp hopened with heq | hold
    · cases heq
    · exact .inl hold
  | get asked =>
    unfold netExec at h
    dsimp only at h
    split at h
    · obtain ⟨rfl, _⟩ := Prod.mk.inj (Option.some.inj h)
      exact .inl hopened
    · rename_i taken htaken
      obtain ⟨rfl, _⟩ := Prod.mk.inj (Option.some.inj h)
      rcases List.mem_cons.mp hopened with heq | hold
      · obtain ⟨rfl, rfl⟩ := NetEvent.opened.inj heq
        obtain ⟨host, hhost, hpick⟩ := Option.bind_eq_some_iff.mp htaken
        exact .inr ⟨rfl, host, hhost, List.mem_of_getElem? hpick⟩
      · exact .inl hold

/-- The client may take any of its addresses. -/
theorem open_any {p : NetPool} (hp : Fetching lib net p) {i : Nat} {url : Text}
    {k : NetCall.Answer (.get url) → NetProg PUnit} (hrun : p.running i = some (.call (.get url) k))
    {host : Host} (hhost : lib.hostOf url = some host) {addr : IpAddr}
    (haddr : addr ∈ net.clientAddrs p.shared host) :
    ∃ q, Fetching lib net q ∧ .opened url addr ∈ q.shared := by
  obtain ⟨pick, hpick⟩ := List.getElem?_of_mem haddr
  have hexec : netExec lib net pick (.get url) p.shared =
      some (.opened url addr :: p.shared, net.answer p.shared url addr) := by
    unfold netExec
    dsimp only
    rw [hhost]
    show (match (net.clientAddrs p.shared host)[pick]? with
      | none => some (p.shared, none)
      | some addr => some (.opened url addr :: p.shared, net.answer p.shared url addr)) = _
    rw [hpick]
  have hnext : (fetchService lib net).next p (.call i pick) = some
      { p with
        shared := .opened url addr :: p.shared
        running := Function.update p.running i (some (k (net.answer p.shared url addr))) } := by
    unfold Service.next
    dsimp only
    rw [hrun]
    show (netExec lib net pick (.get url) p.shared).map _ = _
    rw [hexec]
    rfl
  exact ⟨_, hp.take (.call i pick) trivial hnext, List.mem_cons_self⟩

theorem noneBlocked_step (hpublic : ResolvesPublic lib net) {p q : NetPool}
    (hp : Fetching lib net p) (h : NoneBlocked p.shared) {a : PoolAction FetchKind Nat Empty}
    (hst : (fetchService lib net).next p a = some q) : NoneBlocked q.shared := by
  cases a with
  | arrive kind =>
    obtain rfl := Option.some.inj hst
    exact h
  | env e => cases e
  | call i pick =>
    rw [Service.next] at hst
    split at hst
    · rename_i o k hrun
      obtain ⟨⟨events, r⟩, hexec, rfl⟩ := Option.map_eq_some_iff.mp hst
      intro url addr hopened
      rcases netExec_opened hexec hopened with hold | ⟨rfl, host, hhost, haddr⟩
      · exact h url addr hold
      · have hipv4 := (Service.running_calls request_calls hp i _ hrun).1
        cases host with
        | ipv4 own =>
          obtain rfl := List.mem_singleton.mp haddr
          exact hipv4 own hhost
        | domain name =>
          refine hpublic p hp i url k hrun _ hhost ?_ addr haddr
          intro own he
          cases he
        | ipv6 own =>
          refine hpublic p hp i url k hrun _ hhost ?_ addr haddr
          intro other he
          cases he
    · cases hst

def pictureUrl : Text := "http://mixed.example/x.png".toList

def calendarUrl : Text := "https://mixed.example/x.ics".toList

/-- The libraries on the two URLs. -/
def twoUrls : WebLib where
  parse url :=
    if url = pictureUrl then
      some ⟨"http".toList, some (.domain "mixed.example".toList), some 80⟩
    else if url = calendarUrl then
      some ⟨"https".toList, some (.domain "mixed.example".toList), some 443⟩
    else none
  parseError _ := "relative URL without a base".toList
  join _ _ := none
  gunzip _ := none
  utf8Lossy _ := []

def privateAddr : IpAddr := .v4 ⟨10, 0, 0, 5⟩

def mixedAddrs : List IpAddr := [.v4 ⟨93, 184, 216, 34⟩, privateAddr]

/-- Every resolution gives the same two addresses. -/
def mixedNet : Internet where
  lookup _ _ _ := some mixedAddrs
  resolve _ _ := mixedAddrs
  answer _ _ _ := none

/-- Both fetches take the second address. -/
def takeSecond : List (PoolAction FetchKind Nat Empty) :=
  [.arrive (.image pictureUrl), .arrive (.feed calendarUrl), .call 0 0, .call 1 0, .call 0 1,
    .call 1 1]

end Lyra.Net
