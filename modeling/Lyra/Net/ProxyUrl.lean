import Lyra.Dav.Xml
import Lyra.Lib.UrlPath
import Lyra.Store.Codec
import Mathlib.Data.Set.Basic

/-!
# Signed image URLs

`media.rs` signs the URL of a remote image, `privacy.rs` puts the path of the proxy in its place,
and the proxy takes the URL out of the path again.  Between them stand the browser, which reads
character references and parses the URL as the URL standard says, and the router, which decodes
the path.

* `signed_of_accepted`: an accepted URL was signed, as long as signatures cannot be forged.
-/

namespace Lyra.Media

open Lyra.Lib

abbrev Bytes := List UInt8

/-- Seconds since 1970. -/
abbrev UnixTime := Fin (2 ^ 62)

/-! ## Signing -/

def sigTtlSecs : Nat := 86400

def encodeProxyPath (url : Text) : Text :=
  replaceChar '#' "%23".toList (replaceChar '?' "%3F".toList url)

def replaceAll (pat new s : Text) : Text := replaceText pat new (s.length + 1) s

def decodeProxyPath (encoded : Text) : Text :=
  replaceAll "%23".toList ['#'] (replaceAll "%3F".toList ['?'] encoded)

def hexEncode (bytes : Bytes) : Text :=
  bytes.flatMap fun b => [Nat.digitChar (b.toNat / 16), Nat.digitChar (b.toNat % 16)]

/-- What is signed. -/
def sigPayload (user url : Text) (exp : Int) : Text :=
  user ++ ':' :: (signedDecimal exp ++ ':' :: url)

section Signer

variable (mac : Bytes → Bytes → Bytes) (secrets : Text → Option Bytes)

def computeSig (secret : Bytes) (user url : Text) (exp : Int) : Text :=
  hexEncode (mac secret (toUtf8 (sigPayload user url exp)))

def verifySig (now : UnixTime) (secret : Bytes) (user url : Text) (exp : Int) (sig : Text) : Bool :=
  if exp < now.val then false else computeSig mac secret user url exp == sig

/-- The secret of a user, whose id is a UUID. -/
structure ProxySigner where
  userId : Text
  secret : Bytes
  loaded : secrets userId = some secret
  uuid : ∀ c ∈ userId, c.isAlphanum = true ∨ c = '-'

def proxyPrefix : Text := "/api/v1/proxy/".toList

/-- When a signature that is made now expires. -/
def sigExp (now : UnixTime) : Int := now.val + sigTtlSecs

variable {secrets} in
def ProxySigner.signUrl (signer : ProxySigner secrets) (now : UnixTime) (url : Text) : Text :=
  proxyPrefix ++ encodeProxyPath url ++ "?exp=".toList ++ signedDecimal (sigExp now) ++
    "&sig=".toList ++ computeSig mac signer.secret signer.userId url (sigExp now) ++
    "&uid=".toList ++ signer.userId

/-! ## The handler -/

structure ProxyQuery where
  exp : Int
  sig : Text
  uid : Text
  deriving DecidableEq, Repr

def isHttp (url : Text) : Bool :=
  "http://".toList.isPrefixOf url || "https://".toList.isPrefixOf url

/-- `proxy_image_inner`, up to the cache and the fetch: the URL that is fetched. -/
def proxyTarget (now : UnixTime) (target : Text) (query : ProxyQuery) : Option Text :=
  let url := decodeProxyPath target
  if !isHttp url then none
  else
    match secrets query.uid with
    | none => none
    | some secret =>
      if verifySig mac now secret query.uid url query.exp query.sig then some url else none

end Signer

/-! ## Rewriting -/

def isNameChar (c : Char) : Bool := c.isAlphanum || c == '_'

/-- The text of a group of the pattern: the whole match, and what stands between the quotes. -/
def groupText (whole url name : Text) : Text :=
  match parseUnsigned (2 ^ 64) name with
  | some 0 => whole
  | some 1 => url
  | _ => []

/-- How `Regex::replace` reads a replacement: a dollar sign and a name stand for a group. -/
def expandGroups (group : Text → Text) : Nat → Text → Text
  | 0, _ => []
  | _, [] => []
  | fuel + 1, '$' :: '$' :: s => '$' :: expandGroups group fuel s
  | fuel + 1, '$' :: '{' :: s =>
    if '}' ∈ s then
      group (s.takeWhile (· ≠ '}')) ++ expandGroups group fuel ((s.dropWhile (· ≠ '}')).drop 1)
    else '$' :: '{' :: expandGroups group fuel s
  | fuel + 1, '$' :: s =>
    if s.takeWhile isNameChar = [] then '$' :: expandGroups group fuel s
    else group (s.takeWhile isNameChar) ++ expandGroups group fuel (s.dropWhile isNameChar)
  | fuel + 1, c :: s => c :: expandGroups group fuel s

def isQuote (c : Char) : Bool := c == '"' || c == '\''

/-- What the pattern finds in `src="raw"`: the text up to the first quote of either kind. -/
def capturedSrc (raw : Text) : Text := raw.takeWhile fun c => !isQuote c

def isRemoteHttpUrl (url : Text) : Bool := isHttp (trimText url)

/-- The text that takes the place of the attribute. -/
def rewrittenAttr (raw proxyUrl : Text) : Text :=
  let quote := if '\'' ∈ raw then '\'' else '"'
  let whole := "src=\"".toList ++ capturedSrc raw ++ [quote]
  let replacement := "src=\"".toList ++ proxyUrl ++ ['"']
  expandGroups (groupText whole (capturedSrc raw)) (replacement.length + 1) replacement

/-! ## The browser -/

/-- The references that stand in attributes of a sanitized message. -/
inductive CharRef
  | amp
  | nbsp
  | quot
  | lt
  | gt
  deriving DecidableEq, Repr

def CharRef.char : CharRef → Char
  | amp => '&'
  | nbsp => Char.ofNat 0xa0
  | quot => '"'
  | lt => '<'
  | gt => '>'

def CharRef.text : CharRef → Text
  | amp => "&amp;".toList
  | nbsp => "&nbsp;".toList
  | quot => "&quot;".toList
  | lt => "&lt;".toList
  | gt => "&gt;".toList

def decodeRefs : Text → Text
  | '&' :: 'a' :: 'm' :: 'p' :: ';' :: s => CharRef.amp.char :: decodeRefs s
  | '&' :: 'n' :: 'b' :: 's' :: 'p' :: ';' :: s => CharRef.nbsp.char :: decodeRefs s
  | '&' :: 'q' :: 'u' :: 'o' :: 't' :: ';' :: s => CharRef.quot.char :: decodeRefs s
  | '&' :: 'l' :: 't' :: ';' :: s => CharRef.lt.char :: decodeRefs s
  | '&' :: 'g' :: 't' :: ';' :: s => CharRef.gt.char :: decodeRefs s
  | c :: s => c :: decodeRefs s
  | [] => []

/-- The characters that are escaped in a query. -/
def encodesInQuery (c : Char) : Bool :=
  c.toNat ≤ 0x20 || 0x7f ≤ c.toNat || ['"', '#', '<', '>', '\''].contains c

/-- Tabs and line breaks are taken out of a URL. -/
def keepsInUrl (c : Char) : Bool := !(['\t', '\n', '\r'].contains c)

/-- The path and the query that the browser asks for, for a reference that begins with `/`. -/
def browserRequest (value : Text) : Text × Text :=
  let url := (decodeRefs value).filter keepsInUrl
  let path := url.takeWhile fun c => !(['?', '#'].contains c)
  let query :=
    match url.drop path.length with
    | '?' :: q => q.takeWhile (· ≠ '#')
    | _ => []
  (requestPath (path.drop 1), percentEncode encodesInQuery query)

/-! ## The router -/

/-- What is behind the prefix of the route, decoded. -/
def routeTarget (path : Text) : Option Text :=
  if proxyPrefix.isPrefixOf path && proxyPrefix.length < path.length then
    ofUtf8 (decodeEscapes (path.drop proxyPrefix.length))
  else none

def formDecode (value : Text) : Option Text :=
  ofUtf8 (decodeEscapes (replaceChar '+' [' '] value))

/-- A field that stands once in the query. -/
def queryField (name : String) (query : Text) : Option Text :=
  match (query.splitOn '&').filterMap fun pair =>
      (splitOnce '=' pair).bind fun (key, value) => if key = name.toList then some value else none with
  | [value] => formDecode value
  | _ => none

def parseI64 : Text → Option Int
  | '-' :: s => if s.head?.any Char.isDigit then (parseUnsigned (2 ^ 63 + 1) s).map fun n => -n
    else none
  | s => (parseUnsigned (2 ^ 63) s).map Int.ofNat

def parseProxyQuery (query : Text) : Option ProxyQuery := do
  let exp ← (← queryField "exp" query) |> parseI64
  return ⟨exp, ← queryField "sig" query, ← queryField "uid" query⟩

/-! ## Accepted requests -/

section Accepted

variable {mac : Bytes → Bytes → Bytes} {secrets : Text → Option Bytes} {now : UnixTime}
  {target url : Text} {query : ProxyQuery}

theorem colon_not_mem_signedDecimal (n : Int) : ':' ∉ signedDecimal n := by
  cases n with
  | ofNat n => exact not_mem_decimal (by decide)
  | negSucc n =>
    intro h
    rcases List.mem_cons.mp h with h | h
    · exact absurd h (by decide)
    · exact not_mem_decimal (by decide) h

theorem signedDecimal_inj {m n : Int} (h : signedDecimal m = signedDecimal n) : m = n := by
  have hsign : ∀ k l : Nat, decimal k ≠ '-' :: decimal l := fun k l heq =>
    not_mem_decimal (by decide : '-'.isDigit = false) (heq ▸ List.mem_cons_self)
  cases m with
  | ofNat m =>
    cases n with
    | ofNat n => rw [decimal_inj h]
    | negSucc n => exact absurd h (hsign m (n + 1))
  | negSucc m =>
    cases n with
    | ofNat n => exact absurd h.symm (hsign n (m + 1))
    | negSucc n => rw [Nat.succ.inj (decimal_inj (List.cons.inj h).2)]

/-- The payloads of one user tell times and URLs apart. -/
theorem sigPayload_inj {user url url' : Text} {exp exp' : Int}
    (h : sigPayload user url exp = sigPayload user url' exp') : exp = exp' ∧ url = url' := by
  have htail := (List.cons.inj (List.append_cancel_left h)).2
  have hsplit := congrArg (splitOnce ':') htail
  rw [splitOnce_append (colon_not_mem_signedDecimal exp),
    splitOnce_append (colon_not_mem_signedDecimal exp'), Option.some.injEq] at hsplit
  exact ⟨signedDecimal_inj (congrArg Prod.fst hsplit), congrArg Prod.snd hsplit⟩

/-- What the handler has checked. -/
theorem proxyTarget_eq_some (h : proxyTarget mac secrets now target query = some url) :
    decodeProxyPath target = url ∧ isHttp url = true ∧
      ∃ secret, secrets query.uid = some secret ∧
        verifySig mac now secret query.uid url query.exp query.sig = true := by
  unfold proxyTarget at h
  simp only at h
  split at h
  · cases h
  · rename_i hhttp
    split at h
    · cases h
    · rename_i secret hsecret
      split at h
      · rename_i hverify
        obtain rfl := Option.some.inj h
        exact ⟨rfl, by simpa using hhttp, secret, hsecret, hverify⟩
      · cases h

theorem verifySig_eq_true {secret : Bytes} {user sig : Text} {exp : Int}
    (h : verifySig mac now secret user url exp sig = true) :
    (now.val : Int) ≤ exp ∧ computeSig mac secret user url exp = sig := by
  unfold verifySig at h
  split at h
  · cases h
  · rename_i hexp
    exact ⟨Int.not_lt.mp hexp, beq_iff_eq.mp h⟩

/-- What was signed, for whom and until when. -/
structure SignedUrl where
  userId : Text
  url : Text
  exp : Int

/-- A signature that somebody can present is one that was made for its payload. -/
def Unforgeable (mac : Bytes → Bytes → Bytes) (secrets : Text → Option Bytes)
    (signed : Set SignedUrl) (presented : Set Text) : Prop :=
  ∀ user secret payload, secrets user = some secret →
    hexEncode (mac secret (toUtf8 payload)) ∈ presented →
      ∃ s ∈ signed, s.userId = user ∧ sigPayload s.userId s.url s.exp = payload

theorem signed_of_accepted {signed : Set SignedUrl} {presented : Set Text}
    (hmac : Unforgeable mac secrets signed presented) (hsig : query.sig ∈ presented)
    (h : proxyTarget mac secrets now target query = some url) :
    ∃ s ∈ signed, s.userId = query.uid ∧ s.url = url ∧ s.exp = query.exp := by
  obtain ⟨-, -, secret, hsecret, hverify⟩ := proxyTarget_eq_some h
  obtain ⟨-, htag⟩ := verifySig_eq_true hverify
  rw [← htag] at hsig
  obtain ⟨s, hs, huser, hpayload⟩ := hmac query.uid secret _ hsecret hsig
  rw [huser] at hpayload
  obtain ⟨hexp, hurl⟩ := sigPayload_inj hpayload
  exact ⟨s, hs, huser, hurl, hexp⟩

end Accepted

end Lyra.Media
