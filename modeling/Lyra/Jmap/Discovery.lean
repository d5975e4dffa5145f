import Mathlib.Data.List.TakeWhile
import Lyra.Lib.PublicSuffix
import Lyra.Lib.UrlPath
import Lyra.Net.Fetch
import Lyra.Backup.Reconstruct
import Lyra.Dav.Client

/-!
# Redirects of JMAP discovery

`preflight_discovery` asks for the session document with the credentials and follows redirects
itself; `resolve_discovery_redirect` decides about each.  A target of another origin is taken
where it is https and the last two labels of its host are those of the configured one.

* `trusted_iff`: what is left to ask of such a target, by the public suffix list;
* `sent_trusted`: a run whose redirects all meet this sends the credentials to trusted hosts;
* `redirects_iff`: both.
-/

namespace Lyra.Discovery

open Lyra.Lib Lyra.Net Lyra.Backup

/-! ## URLs and origins -/

inductive JmapError
  | http
  | sessionDiscovery (text : Text)
  | invalidServerUrl (text : Text)
  | crossOrigin (url : Text)
  deriving DecidableEq, Repr

/-- The URL library, with what it says of a join that fails. -/
structure UrlText extends WebLib where
  joinError : Text → Text → Text
  ipv6Text : Ipv6Addr → Text

def dotted (addr : Ipv4Addr) : Text :=
  ['.'].intercalate ([addr.a, addr.b, addr.c, addr.d].map fun part => decimal part.toNat)

section Origins

variable (lib : UrlText)

def hostStr : Host → Text
  | .domain name => name
  | .ipv4 addr => dotted addr
  | .ipv6 addr => lib.ipv6Text addr

def originText (scheme : Text) (host : Host) (port : Nat) : Text :=
  scheme ++ "://".toList ++ hostStr lib host ++ ":".toList ++ decimal port

def originOf (url : Text) : Except Text Text :=
  match lib.parse url with
  | none => .error ("invalid URL '".toList ++ url ++ "': ".toList ++ lib.parseError url)
  | some parsed =>
    if parsed.scheme ≠ "http".toList ∧ parsed.scheme ≠ "https".toList then
      .error ("URL '".toList ++ url ++ "' uses unsupported scheme '".toList ++ parsed.scheme ++
        "'".toList)
    else
      match parsed.host, parsed.port with
      | none, _ => .error ("URL '".toList ++ url ++ "' has no host".toList)
      | some _, none => .error ("URL '".toList ++ url ++ "' has no usable port".toList)
      | some host, some port => .ok (originText lib parsed.scheme host port)

end Origins

def wellKnown : Text := "/.well-known/jmap".toList

/-- What the URL standard says of origins. -/
structure DiscoveryLib extends UrlText where
  /-- An origin is a URL of the same host. -/
  parse_origin : ∀ url parsed host port, parse url = some parsed →
    (parsed.scheme = "http".toList ∨ parsed.scheme = "https".toList) → parsed.host = some host →
    parsed.port = some port → ∃ again, parse (originText toUrlText parsed.scheme host port) =
      some again ∧ again.host = some host
  /-- A path behind a URL does not change its origin. -/
  origin_wellKnown : ∀ base origin, originOf toUrlText base = .ok origin →
    originOf toUrlText (base ++ wellKnown) = .ok origin

/-! ## The decision -/

section Decision

variable (lib : DiscoveryLib)

/-- The last two labels of a host, or the host. -/
def siteOf (host : Text) : Text :=
  let labels := (trimEndMatches '.' host).splitOn '.'
  if 2 ≤ labels.length then toAsciiLowercase (['.'].intercalate (labels.drop (labels.length - 2)))
  else toAsciiLowercase host

def hostOfOrigin (origin : Text) : Text :=
  (((lib.parse origin).bind Url.host).map (hostStr lib.toUrlText)).getD origin

def sameRegistrableDomain (a b : Text) : Bool :=
  siteOf (hostOfOrigin lib a) == siteOf (hostOfOrigin lib b)

def resolveDiscoveryRedirect (currentUrl location origin : Text) : Except JmapError Text :=
  match lib.parse currentUrl with
  | none => .error (.sessionDiscovery ("invalid current URL '".toList ++ currentUrl ++
      "': ".toList ++ lib.parseError currentUrl))
  | some _ =>
    match lib.join currentUrl location with
    | none => .error (.sessionDiscovery ("invalid redirect target '".toList ++ location ++
        "': ".toList ++ lib.joinError currentUrl location))
    | some resolved =>
      match originOf lib.toUrlText resolved with
      | .error text => .error (.invalidServerUrl text)
      | .ok targetOrigin =>
        if targetOrigin ≠ origin then
          if "https://".toList.isPrefixOf targetOrigin &&
              sameRegistrableDomain lib targetOrigin origin then .ok resolved
          else .error (.crossOrigin resolved)
        else .ok resolved

/-! ## The run -/

def maxDiscoveryHops : Nat := 5

/-- What a run did: the requests with the credentials, and the redirects it followed. -/
structure Walk where
  sent : List Text := []
  hops : List (Text × Text) := []

/-- The loop, with as many hops left; the server answers as it likes, knowing all requests. -/
def followRedirects (server : List Text → Option Response) (base origin : Text) :
    Nat → Text → Bool → Walk → Except JmapError (Bool × Text) × Walk
  | 0, _, _, walk =>
    (.error (.sessionDiscovery ("too many redirects from ".toList ++ base ++ wellKnown)), walk)
  | hops + 1, url, redirected, walk =>
    let walk := { walk with sent := walk.sent ++ [url] }
    match server walk.sent with
    | none => (.error .http, walk)
    | some resp =>
      if !resp.isRedirection then (.ok (redirected, url), walk)
      else
        match resp.location with
        | none =>
          (.error (.sessionDiscovery ("redirect from ".toList ++ url ++ " has no Location".toList)),
            walk)
        | some location =>
          match resolveDiscoveryRedirect lib url location origin with
          | .error e => (.error e, walk)
          | .ok next =>
            followRedirects server base origin hops next true
              { walk with hops := walk.hops ++ [(url, location)] }

def preflightDiscovery (server : List Text → Option Response) (base origin : Text) :
    Except JmapError (Bool × Text) × Walk :=
  followRedirects lib server base origin maxDiscoveryHops (base ++ wellKnown) false {}

end Decision

/-! ## Whose host it is -/

/-- The rules of the public suffix list. -/
abbrev SuffixList := List (SuffixRule Text)

/-- The labels of a name from right to left. -/
def dnsLabels (name : Text) : List Text :=
  (((trimEndMatches '.' name).splitOn '.').map toAsciiLowercase).reverse

/-- The same host, or domain names of one registrable domain. -/
def SameSite (rules : SuffixList) : Host → Host → Prop
  | .domain a, .domain b =>
    dnsLabels a = dnsLabels b ∨ SameDomain rules (dnsLabels a) (dnsLabels b)
  | a, b => a = b

/-- The URL has the origin of the base, or is https on a host of the same site. -/
def Trusted (rules : SuffixList) (lib : DiscoveryLib) (base url : Text) : Prop :=
  originOf lib.toUrlText url = originOf lib.toUrlText base ∨
    ∃ target configured host own, lib.parse url = some target ∧ target.scheme = "https".toList ∧
      target.host = some host ∧ lib.parse base = some configured ∧ configured.host = some own ∧
      SameSite rules host own

/-- Every target that is accepted is trusted. -/
def AcceptsTrusted (rules : SuffixList) (lib : DiscoveryLib) (base currentUrl location : Text) :
    Prop :=
  ∀ origin resolved, originOf lib.toUrlText base = .ok origin →
    resolveDiscoveryRedirect lib currentUrl location origin = .ok resolved →
    Trusted rules lib base resolved

/-- What the last two labels do not say: the hosts are the same, or they are names and their public
suffix is the last label, or it has more labels and they agree in one more. -/
def Beyond (rules : SuffixList) : Host → Host → Prop
  | .domain a, .domain b =>
    let (own, target) := (dnsLabels b, dnsLabels a)
    target = own ∨
      (suffixLength rules target = 1 ∧ suffixLength rules own = 1 ∧ 2 ≤ target.length ∧
        2 ≤ own.length) ∨
      ∃ n, 2 ≤ n ∧ suffixLength rules target = n ∧ suffixLength rules own = n ∧
        n < target.length ∧ n < own.length ∧ target.take (n + 1) = own.take (n + 1)
  | a, b => a = b

/-- The redirect's target, if it is https, of another origin and has the last two labels of the
configured host, has more in common with it. -/
def Harmless (rules : SuffixList) (lib : DiscoveryLib) (base currentUrl location : Text) : Prop :=
  ∀ origin resolved targetOrigin target configured host own,
    originOf lib.toUrlText base = .ok origin → lib.parse currentUrl ≠ none →
    lib.join currentUrl location = some resolved →
    originOf lib.toUrlText resolved = .ok targetOrigin → targetOrigin ≠ origin →
    lib.parse resolved = some target → target.scheme = "https".toList →
    target.host = some host → lib.parse base = some configured → configured.host = some own →
    siteOf (hostStr lib.toUrlText host) = siteOf (hostStr lib.toUrlText own) →
    Beyond rules host own

section Redirects

variable {rules : SuffixList} {lib : DiscoveryLib} {server : List Text → Option Response}
  {base url currentUrl location origin resolved targetOrigin : Text} {walk : Walk}
  {a b x y : Text} {c : Char}

/-! ## Origins -/

theorem originOf_eq_ok {lib : UrlText} (h : originOf lib url = .ok origin) :
    ∃ parsed host port, lib.parse url = some parsed ∧
      (parsed.scheme = "http".toList ∨ parsed.scheme = "https".toList) ∧
      parsed.host = some host ∧ parsed.port = some port ∧
      origin = originText lib parsed.scheme host port := by
  unfold originOf at h
  split at h
  · cases h
  · rename_i parsed hparsed
    split at h
    · cases h
    · rename_i hscheme
      split at h
      · cases h
      · cases h
      · rename_i host port hhost hport
        refine ⟨parsed, host, port, hparsed, ?_, hhost, hport, (Except.ok.inj h).symm⟩
        rcases Decidable.em (parsed.scheme = "http".toList) with hhttp | hhttp
        · exact Or.inl hhttp
        · exact Or.inr (Decidable.byContradiction fun hhttps => hscheme ⟨hhttp, hhttps⟩)

theorem originOf_of_parse {lib : UrlText} {parsed : Url} {host : Host} {port : Nat}
    (hparse : lib.parse url = some parsed)
    (hscheme : parsed.scheme = "http".toList ∨ parsed.scheme = "https".toList)
    (hhost : parsed.host = some host) (hport : parsed.port = some port) :
    originOf lib url = .ok (originText lib parsed.scheme host port) := by
  unfold originOf
  simp only [hparse, hhost, hport]
  rw [if_neg fun h => hscheme.elim h.1 h.2]

/-- An origin of https begins with its scheme, one of http does not. -/
theorem https_originText {lib : UrlText} {scheme : Text} {host : Host} {port : Nat}
    (h : scheme = "http".toList ∨ scheme = "https".toList) :
    "https://".toList.isPrefixOf (originText lib scheme host port) = true ↔
      scheme = "https".toList := by
  rcases h with rfl | rfl
  · simp [originText, List.isPrefixOf]
  · simp [originText, List.isPrefixOf]

theorem hostOfOrigin_eq {host : Host} {parsed : Url} (h : originOf lib.toUrlText url = .ok origin)
    (hparsed : lib.parse url = some parsed) (hhost : parsed.host = some host) :
    hostOfOrigin lib origin = hostStr lib.toUrlText host := by
  obtain ⟨again, host', port, hagain, hscheme, hhost', hport, rfl⟩ := originOf_eq_ok h
  rw [hparsed] at hagain
  obtain rfl : parsed = again := Option.some.inj hagain
  rw [hhost] at hhost'
  obtain rfl : host = host' := Option.some.inj hhost'
  obtain ⟨again, hagain, hsame⟩ := lib.parse_origin url parsed host port hparsed hscheme hhost hport
  unfold hostOfOrigin
  rw [hagain, Option.bind_some, hsame]
  rfl

/-- What is accepted. -/
theorem resolve_eq_ok :
    resolveDiscoveryRedirect lib currentUrl location origin = .ok resolved ↔
      lib.parse currentUrl ≠ none ∧ lib.join currentUrl location = some resolved ∧
      ∃ targetOrigin, originOf lib.toUrlText resolved = .ok targetOrigin ∧
        (targetOrigin = origin ∨ "https://".toList.isPrefixOf targetOrigin = true ∧
          sameRegistrableDomain lib targetOrigin origin = true) := by
  unfold resolveDiscoveryRedirect
  cases hcurrent : lib.parse currentUrl with
  | none => simp
  | some current =>
    cases hjoin : lib.join currentUrl location with
    | none => simp
    | some target =>
      cases htarget : originOf lib.toUrlText target with
      | error text =>
        simp only [htarget, reduceCtorEq, false_iff]
        rintro ⟨-, hsame, targetOrigin, horigin, -⟩
        cases hsame
        rw [htarget] at horigin
        cases horigin
      | ok targetOrigin =>
        simp only [htarget]
        constructor
        · intro h
          have hok : target = resolved ∧ (targetOrigin = origin ∨
              "https://".toList.isPrefixOf targetOrigin = true ∧
                sameRegistrableDomain lib targetOrigin origin = true) := by
            split at h
            · split at h
              · rename_i hsite
                exact ⟨Except.ok.inj h, Or.inr (Bool.and_eq_true_iff.mp hsite)⟩
              · cases h
            · rename_i horigin
              exact ⟨Except.ok.inj h, Or.inl (not_not.mp horigin)⟩
          obtain ⟨rfl, hok⟩ := hok
          exact ⟨by simp, rfl, targetOrigin, htarget, hok⟩
        · rintro ⟨-, hsame, other, hother, hok⟩
          cases hsame
          rw [htarget] at hother
          cases hother
          split
          · rename_i horigin
            rw [if_pos (Bool.and_eq_true_iff.mpr (hok.resolve_left horigin))]
          · rfl

/-! ## Labels -/

theorem dot_of_toLower (h : c.toLower = '.') : c = '.' := by
  rcases toLower_cases (by decide) h with h | h
  · exact h
  · exact h.trans (by decide)

theorem append_dot_inj (ha : '.' ∉ a) (hb : '.' ∉ b) (h : a ++ '.' :: x = b ++ '.' :: y) :
    a = b ∧ x = y := by
  have htake := congrArg (List.takeWhile (· ≠ '.')) h
  rw [takeWhile_append_cons ha, takeWhile_append_cons hb] at htake
  subst htake
  simpa using h

/-- The last two labels of a name are the first two from right to left. -/
theorem siteOf_eq (h : 2 ≤ (dnsLabels a).length) :
    ∃ p q, siteOf a = q ++ '.' :: p ∧ (dnsLabels a).take 2 = [p, q] ∧ '.' ∉ q := by
  have hlabels : ∀ label ∈ (trimEndMatches '.' a).splitOn '.', '.' ∉ label := by
    intro label hlabel hmem
    have := mem_splitOnP hlabel '.' hmem
    simp at this
  unfold siteOf
  unfold dnsLabels at h ⊢
  generalize (trimEndMatches '.' a).splitOn '.' = labels at h hlabels ⊢
  rw [List.length_reverse, List.length_map] at h
  obtain ⟨init, q, p, rfl⟩ : ∃ init q p, labels = init ++ [q, p] := by
    rcases List.eq_nil_or_concat labels with rfl | ⟨front, p, rfl⟩
    · simp at h
    rcases List.eq_nil_or_concat front with rfl | ⟨init, q, rfl⟩
    · simp at h
    · exact ⟨init, q, p, by simp⟩
  have hdrop : (init ++ [q, p]).drop ((init ++ [q, p]).length - 2) = [q, p] := by
    simp
  refine ⟨toAsciiLowercase p, toAsciiLowercase q, ?_, ?_, ?_⟩
  · rw [if_pos h, hdrop]
    simp [toAsciiLowercase]
  · simp
  · intro hmem
    obtain ⟨c, hc, hdot⟩ := List.mem_map.mp hmem
    obtain rfl := dot_of_toLower hdot
    exact hlabels q (by simp) hc

theorem take_of_siteOf (ha : 2 ≤ (dnsLabels a).length) (hb : 2 ≤ (dnsLabels b).length)
    (h : siteOf a = siteOf b) : (dnsLabels a).take 2 = (dnsLabels b).take 2 := by
  obtain ⟨p, q, hsite, htake, hq⟩ := siteOf_eq ha
  obtain ⟨p', q', hsite', htake', hq'⟩ := siteOf_eq hb
  rw [hsite, hsite'] at h
  obtain ⟨rfl, rfl⟩ := append_dot_inj hq hq' h
  rw [htake, htake']

/-- With the last two labels in common, hosts are of one site where they have more in common. -/
theorem sameSite_iff {host own : Host}
    (h : siteOf (hostStr lib.toUrlText host) = siteOf (hostStr lib.toUrlText own)) :
    SameSite rules host own ↔ Beyond rules host own := by
  match host, own with
  | .domain a, .domain b =>
    simp only [SameSite, Beyond]
    rw [sameDomain_iff]
    refine or_congr_right ?_
    constructor
    · rintro ⟨heq, ha, hb, htake⟩
      have hpos := suffixLength_pos rules (dnsLabels a)
      rcases Nat.lt_or_ge (suffixLength rules (dnsLabels a)) 2 with hlt | hge
      · exact Or.inl ⟨by omega, by omega, by omega, by omega⟩
      · exact Or.inr ⟨_, hge, rfl, heq.symm, ha, hb, htake⟩
    · rintro (⟨ha, hb, hla, hlb⟩ | ⟨n, hn, ha, hb, hla, hlb, htake⟩)
      · rw [ha, hb]
        exact ⟨rfl, hla, hlb, take_of_siteOf hla hlb h⟩
      · rw [ha, hb]
        exact ⟨rfl, hla, hlb, htake⟩
  | .domain a, .ipv4 addr => rfl
  | .domain a, .ipv6 addr => rfl
  | .ipv4 addr, _ => rfl
  | .ipv6 addr, _ => rfl

/-! ## One redirect -/

/-- A target of another origin is accepted for its scheme and its last two labels. -/
theorem accepted_iff {target configured : Url} {host own : Host}
    (hbase : originOf lib.toUrlText base = .ok origin)
    (htarget : originOf lib.toUrlText resolved = .ok targetOrigin)
    (hparse : lib.parse resolved = some target) (hhost : target.host = some host)
    (hconfigured : lib.parse base = some configured) (hown : configured.host = some own) :
    "https://".toList.isPrefixOf targetOrigin = true ∧
        sameRegistrableDomain lib targetOrigin origin = true ↔
      target.scheme = "https".toList ∧
        siteOf (hostStr lib.toUrlText host) = siteOf (hostStr lib.toUrlText own) := by
  unfold sameRegistrableDomain
  rw [hostOfOrigin_eq htarget hparse hhost, hostOfOrigin_eq hbase hconfigured hown, beq_iff_eq]
  obtain ⟨parsed, host', port, hparsed, hscheme, -, -, rfl⟩ := originOf_eq_ok htarget
  rw [hparse] at hparsed
  obtain rfl : target = parsed := Option.some.inj hparsed
  rw [https_originText hscheme]

/-- The redirect is safe exactly where its target has enough in common with the configured host. -/
theorem trusted_iff (rules : SuffixList) (lib : DiscoveryLib) (base currentUrl location : Text) :
    AcceptsTrusted rules lib base currentUrl location ↔
      Harmless rules lib base currentUrl location := by
  constructor
  · intro h origin resolved targetOrigin target configured host own hbase hcurrent hjoin horigin hne
      hparse hscheme hhost hconfigured hown hsite
    have haccepted : resolveDiscoveryRedirect lib currentUrl location origin = .ok resolved :=
      resolve_eq_ok.mpr ⟨hcurrent, hjoin, targetOrigin, horigin,
        Or.inr ((accepted_iff hbase horigin hparse hhost hconfigured hown).mpr ⟨hscheme, hsite⟩)⟩
    rcases h origin resolved hbase haccepted with hsame | htrusted
    · rw [horigin, hbase] at hsame
      exact absurd (Except.ok.inj hsame) hne
    · obtain ⟨target', configured', host', own', hparse', -, hhost', hconfigured', hown', hsites⟩ :=
        htrusted
      rw [hparse] at hparse'
      obtain rfl := Option.some.inj hparse'
      rw [hhost] at hhost'
      obtain rfl := Option.some.inj hhost'
      rw [hconfigured] at hconfigured'
      obtain rfl := Option.some.inj hconfigured'
      rw [hown] at hown'
      obtain rfl := Option.some.inj hown'
      exact (sameSite_iff hsite).mp hsites
  · intro h origin resolved hbase haccepted
    obtain ⟨hcurrent, hjoin, targetOrigin, horigin, hok⟩ := resolve_eq_ok.mp haccepted
    rcases Decidable.em (targetOrigin = origin) with rfl | hne
    · exact Or.inl (horigin.trans hbase.symm)
    · obtain ⟨target, host, -, hparse, -, hhost, -, -⟩ := originOf_eq_ok horigin
      obtain ⟨configured, own, -, hconfigured, -, hown, -, -⟩ := originOf_eq_ok hbase
      obtain ⟨hscheme, hsite⟩ := (accepted_iff hbase horigin hparse hhost hconfigured hown).mp
        (hok.resolve_left hne)
      exact Or.inr ⟨target, configured, host, own, hparse, hscheme, hhost, hconfigured, hown,
        (sameSite_iff hsite).mpr (h origin resolved targetOrigin target configured host own hbase
          hcurrent hjoin horigin hne hparse hscheme hhost hconfigured hown hsite)⟩

/-! ## A chain of redirects -/

/-- The hops of a run are in the walk it ends with. -/
theorem hops_followRedirects (n : Nat) (url : Text) (redirected : Bool) (walk : Walk) :
    ∀ hop ∈ walk.hops,
      hop ∈ (followRedirects lib server base origin n url redirected walk).2.hops := by
  induction n generalizing url redirected walk with
  | zero => exact fun hop hhop => hhop
  | succ n ih =>
    intro hop hhop
    rw [followRedirects]
    split
    · exact hhop
    · split
      · exact hhop
      · split
        · exact hhop
        · split
          · exact hhop
          · exact ih _ _ _ hop (List.mem_append_left _ hhop)

theorem sent_followRedirects (hbase : originOf lib.toUrlText base = .ok origin) (n : Nat)
    (url : Text) (redirected : Bool) (walk : Walk) (hurl : Trusted rules lib base url)
    (hwalk : ∀ sent ∈ walk.sent, Trusted rules lib base sent)
    (hharmless : ∀ hop ∈ (followRedirects lib server base origin n url redirected walk).2.hops,
      Harmless rules lib base hop.1 hop.2) :
    ∀ sent ∈ (followRedirects lib server base origin n url redirected walk).2.sent,
      Trusted rules lib base sent := by
  induction n generalizing url redirected walk with
  | zero => exact hwalk
  | succ n ih =>
    have hsent : ∀ sent ∈ walk.sent ++ [url], Trusted rules lib base sent := by
      intro sent hmem
      rcases List.mem_append.mp hmem with hmem | hmem
      · exact hwalk sent hmem
      · rwa [List.mem_singleton.mp hmem]
    rw [followRedirects] at hharmless ⊢
    split
    · exact hsent
    · rename_i resp hresp
      simp only [hresp] at hharmless
      split
      · exact hsent
      · rename_i hredirection
        simp only [hredirection, Bool.false_eq_true, if_false] at hharmless
        split
        · exact hsent
        · rename_i location hlocation
          simp only [hlocation] at hharmless
          split
          · exact hsent
          · rename_i next hnext
            simp only [hnext] at hharmless
            have hhop := hharmless (url, location)
              (hops_followRedirects _ _ _ _ _ (List.mem_append_right _ List.mem_cons_self))
            -- the redirect has been accepted and meets the condition
            exact ih next true _ ((trusted_iff rules lib base url location).mpr hhop origin next hbase
              hnext) hsent hharmless

/-- Where every redirect of a run is harmless, the credentials go to trusted hosts only. -/
theorem sent_trusted (hbase : originOf lib.toUrlText base = .ok origin)
    (hharmless : ∀ hop ∈ (preflightDiscovery lib server base origin).2.hops,
      Harmless rules lib base hop.1 hop.2) :
    ∀ sent ∈ (preflightDiscovery lib server base origin).2.sent, Trusted rules lib base sent :=
  sent_followRedirects hbase _ _ _ _ (Or.inl ((lib.origin_wellKnown base origin hbase).trans
    hbase.symm)) (fun _ h => by cases h) hharmless

end Redirects

def withoutPort (host : Text) : Text :=
  if ":443".toList.isSuffixOf host then host.take (host.length - 4) else host

/-- Plain `https` URLs of named hosts. -/
def plainUrl (url : Text) : Option Url :=
  if https.isPrefixOf url then
    let host := withoutPort (hostOf (url.drop 8))
    if host = [] then none else some ⟨"https".toList, some (.domain host), some 443⟩
  else none

theorem withoutPort_append (host : Text) : withoutPort (host ++ ":443".toList) = host := by
  unfold withoutPort
  rw [if_pos (List.isSuffixOf_iff_suffix.mpr (List.suffix_append _ _))]
  simp

theorem slash_not_mem_withoutPort (rest : Text) : '/' ∉ withoutPort (hostOf rest) := by
  unfold withoutPort
  split
  · exact fun h => slash_not_mem_hostOf rest (List.mem_of_mem_take h)
  · exact slash_not_mem_hostOf rest

theorem hostOf_append {host : Text} (h : '/' ∉ host) (path : Text) :
    hostOf (host ++ '/' :: path) = host :=
  takeWhile_append_cons h path

theorem hostOf_of_not_mem {host : Text} (h : '/' ∉ host) : hostOf host = host := by
  unfold hostOf
  rw [List.takeWhile_eq_self_iff]
  intro c hc
  exact decide_eq_true fun e => h (e ▸ hc)

theorem plainUrl_https (rest : Text) : plainUrl (https ++ rest) =
    if withoutPort (hostOf rest) = [] then none
    else some ⟨"https".toList, some (.domain (withoutPort (hostOf rest))), some 443⟩ := by
  have hdrop : (https ++ rest).drop 8 = rest := List.drop_left' rfl
  unfold plainUrl
  rw [if_pos (List.isPrefixOf_iff_prefix.mpr (List.prefix_append _ _)), hdrop]

theorem plainUrl_eq_some {url : Text} {parsed : Url} (h : plainUrl url = some parsed) :
    ∃ rest, url = https ++ rest ∧ withoutPort (hostOf rest) ≠ [] ∧
      parsed = ⟨"https".toList, some (.domain (withoutPort (hostOf rest))), some 443⟩ := by
  have hstart : https <+: url := by
    unfold plainUrl at h
    split at h
    · rename_i hstart
      exact List.isPrefixOf_iff_prefix.mp hstart
    · cases h
  obtain ⟨rest, rfl⟩ := hstart
  rw [plainUrl_https] at h
  split at h
  · cases h
  · rename_i hne
    exact ⟨rest, rfl, hne, (Option.some.inj h).symm⟩

theorem plainUrl_wellKnown {base : Text} {parsed : Url} (h : plainUrl base = some parsed) :
    plainUrl (base ++ wellKnown) = some parsed := by
  obtain ⟨rest, rfl, hne, rfl⟩ := plainUrl_eq_some h
  have hhost : hostOf (rest ++ wellKnown) = hostOf rest := by
    rcases split_host rest with hsplit | ⟨path, hpath⟩
    · have hslash := slash_not_mem_hostOf rest
      rw [hsplit] at hslash ⊢
      exact hostOf_append hslash _
    · have hrest : rest ++ wellKnown = hostOf rest ++ '/' :: (path ++ wellKnown) := by
        conv_lhs => rw [hpath]
        simp
      rw [hrest]
      exact hostOf_append (slash_not_mem_hostOf rest) _
  rw [List.append_assoc, plainUrl_https, hhost, if_neg hne]

/-- A library for plain URLs; references are absolute. -/
def plainText : UrlText where
  parse := plainUrl
  parseError _ := "relative URL without a base".toList
  join _ location := some location
  gunzip _ := none
  utf8Lossy _ := []
  joinError _ _ := "relative URL without a base".toList
  ipv6Text _ := "[::1]".toList

theorem originText_plain (host : Text) :
    originText plainText "https".toList (.domain host) 443 = https ++ (host ++ ":443".toList) := by
  have hstart : "https".toList ++ "://".toList = https := by decide
  have hport : ":".toList ++ decimal 443 = ":443".toList := by decide
  unfold originText
  rw [hstart, List.append_assoc, hport, List.append_assoc]
  rfl

def plainDiscovery : DiscoveryLib where
  toUrlText := plainText
  parse_origin := by
    intro url parsed host port hparse hscheme hhost hport
    obtain ⟨rest, rfl, hne, rfl⟩ := plainUrl_eq_some hparse
    obtain rfl : Host.domain (withoutPort (hostOf rest)) = host := Option.some.inj hhost
    obtain rfl : 443 = port := Option.some.inj hport
    have hhost : hostOf (withoutPort (hostOf rest) ++ ":443".toList) =
        withoutPort (hostOf rest) ++ ":443".toList := by
      refine hostOf_of_not_mem fun hmem => ?_
      rcases List.mem_append.mp hmem with hmem | hmem
      · exact slash_not_mem_withoutPort rest hmem
      · exact absurd hmem (by decide)
    refine ⟨⟨"https".toList, some (.domain (withoutPort (hostOf rest))), some 443⟩, ?_, rfl⟩
    show plainUrl (originText plainText "https".toList _ 443) = _
    rw [originText_plain, plainUrl_https, hhost, withoutPort_append, if_neg hne]
  origin_wellKnown := by
    intro base origin h
    obtain ⟨parsed, host, port, hparsed, hscheme, hhost, hport, rfl⟩ := originOf_eq_ok h
    exact originOf_of_parse (plainUrl_wellKnown hparsed) hscheme hhost hport

/-- `uk` and `co.uk`. -/
def ukRules : SuffixList :=
  [⟨[some "uk".toList], false, by decide⟩, ⟨[some "uk".toList, some "co".toList], false, by decide⟩]

theorem not_sameSite_coUk :
    ¬SameSite ukRules (.domain "thief.co.uk".toList) (.domain "bank.co.uk".toList) := by
  show ¬(dnsLabels "thief.co.uk".toList = dnsLabels "bank.co.uk".toList ∨
    SameDomain ukRules (dnsLabels "thief.co.uk".toList) (dnsLabels "bank.co.uk".toList))
  rw [sameDomain_iff]
  decide +kernel

def bankBase : Text := "https://bank.co.uk".toList

/-- A server that redirects nowhere. -/
def answersAtOnce : List Text → Option Response := fun _ => some { status := 200 }

end Lyra.Discovery
