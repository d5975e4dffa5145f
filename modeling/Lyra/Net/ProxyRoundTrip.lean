import Lyra.Net.ProxyUrl
import Mathlib.Data.List.TakeWhile

/-!
# The round trip of an image URL

What has to hold of the source of an image so that the proxy fetches the URL that the source
means: no character may be changed by a layer that the others do not undo.

* `recovered_of_unchanged`, `unchanged_of_recovered`: what comes through the browser, the router
  and the proxy as it was;
* `roundTrips_iff_survives`: the URL of an image comes back exactly if no layer changes it.
-/

namespace Lyra.Media

open Lyra.Lib

/-! ## Sources -/

/-- A piece of an attribute value as the sanitizer writes it. -/
inductive AttrItem
  | char (c : Char) (plain : c ≠ '&' ∧ c ≠ '"')
  | ref (r : CharRef)

def AttrItem.text : AttrItem → Text
  | char c _ => [c]
  | ref r => r.text

def AttrItem.meaning : AttrItem → Char
  | char c _ => c
  | ref r => r.char

def rawText (items : List AttrItem) : Text := items.flatMap AttrItem.text

def meantText (items : List AttrItem) : Text := items.map AttrItem.meaning

/-- The source of a remote image in a sanitized message. -/
structure RemoteSrc where
  items : List AttrItem
  remote : isRemoteHttpUrl (capturedSrc (rawText items)) = true

def RemoteSrc.raw (src : RemoteSrc) : Text := rawText src.items

/-- The URL that the source means. -/
def RemoteSrc.url (src : RemoteSrc) : Text := meantText src.items

section RoundTrip

variable (mac : Bytes → Bytes → Bytes) {secrets : Text → Option Bytes}

/-- The value of the source that the browser finds after the rewriting. -/
def proxiedSrc (signer : ProxySigner secrets) (issued : UnixTime) (raw : Text) : Text :=
  ((rewrittenAttr raw (signer.signUrl mac issued (capturedSrc raw))).drop "src=\"".length).takeWhile
    (· ≠ '"')

variable (secrets) in
/-- The URL that the proxy fetches for a source. -/
def fetchedUrl (now : UnixTime) (value : Text) : Option Text :=
  (routeTarget (browserRequest value).1).bind fun target =>
    (parseProxyQuery (browserRequest value).2).bind (proxyTarget mac secrets now target)

/-- As long as the signature is valid, the URL that was signed is fetched, and it is the URL that
the source means. -/
def RoundTrips (signer : ProxySigner secrets) (src : RemoteSrc) : Prop :=
  ∀ issued now : UnixTime, now.val ≤ issued.val + sigTtlSecs →
    fetchedUrl mac secrets now (proxiedSrc mac signer issued src.raw) =
        some (capturedSrc src.raw) ∧
      capturedSrc src.raw = src.url

end RoundTrip

/-- A dollar sign in a replacement stands for a group. -/
def expandsDollar : Text → Bool
  | '$' :: c :: s => isNameChar c || c == '$' || c == '{' || expandsDollar (c :: s)
  | _ :: s => expandsDollar s
  | [] => false

/-- No layer changes the source. -/
structure Survives (raw : Text) : Prop where
  http : isHttp raw = true
  dollar : expandsDollar raw = false
  plain : ∀ c ∈ raw, c ∉ ['&', '\'', '\\', '\t', '\n', '\r']
  escapes : hasEscape raw = false
  dots : ∀ segment ∈ raw.splitOnP isPathBreak, segment ≠ ['.'] ∧ segment ≠ ['.', '.']

/-! ## The replacement -/

section Replacement

variable {group : Text → Text} {s : Text}

/-- A replacement without groups is taken as it is. -/
theorem expandGroups_of_not {fuel : Nat} (h : expandsDollar s = false) (hfuel : s.length < fuel) :
    expandGroups group fuel s = s := by
  induction fuel generalizing s with
  | zero => omega
  | succ fuel ih =>
    cases s with
    | nil => rfl
    | cons c s =>
      have hlength : s.length < fuel := by simpa using hfuel
      by_cases hc : c = '$'
      · subst hc
        cases s with
        | nil => cases fuel <;> rfl
        | cons x s =>
          simp only [expandsDollar, Bool.or_eq_false_iff, beq_eq_false_iff_ne, ne_eq] at h
          obtain ⟨⟨⟨hname, hdollar⟩, hopen⟩, hrest⟩ := h
          rw [expandGroups, if_pos (by simp [hname]), ih hrest hlength]
          · rintro s' ⟨⟩
            exact hdollar rfl
          · rintro s' ⟨⟩
            exact hopen rfl
      · have hrest : expandsDollar s = false := by
          rw [expandsDollar] at h
          · exact h
          · rintro x s' rfl
            exact absurd rfl hc
        rw [expandGroups, ih hrest hlength]
        · rintro s' rfl
          exact absurd rfl hc
        · rintro s' rfl
          exact absurd rfl hc
        · rintro rfl
          exact absurd rfl hc

theorem expandsDollar_of_not_mem (h : '$' ∉ s) (t : Text) :
    expandsDollar (s ++ t) = expandsDollar t := by
  induction s with
  | nil => rfl
  | cons c s ih =>
    obtain ⟨hc, hs⟩ := List.ne_and_not_mem_of_not_mem_cons h
    rw [List.cons_append, expandsDollar]
    · exact ih hs
    · rintro x s' rfl
      exact absurd rfl hc

theorem expandsDollar_append {c : Char} (hname : isNameChar c = false) (hdollar : c ≠ '$')
    (hopen : c ≠ '{') (a b : Text) :
    expandsDollar (a ++ c :: b) = (expandsDollar a || expandsDollar b) := by
  have hcons : expandsDollar (c :: b) = expandsDollar b := by
    rw [expandsDollar]
    rintro x s' rfl
    exact absurd rfl hdollar
  fun_induction expandsDollar a with
  | case1 x s ih =>
    rw [List.cons_append, List.cons_append, expandsDollar, ← List.cons_append, ih, ← Bool.or_assoc]
  | case2 x s hshort ih =>
    by_cases hx : x = '$'
    · subst hx
      cases s with
      | nil => simp [expandsDollar, hname, hdollar, hopen, hcons]
      | cons y s => exact (hshort y s rfl rfl).elim
    · rw [List.cons_append, expandsDollar, ih]
      rintro y s' rfl
      exact absurd rfl hx
  | case3 => simp [hcons]

/-- `encode_proxy_path` is percent-encoding. -/
def encodesInProxy (c : Char) : Bool := c == '?' || c == '#'

theorem replaceChar_cons (c x : Char) (new s : Text) :
    replaceChar c new (x :: s) = (if x = c then new else [x]) ++ replaceChar c new s := rfl

theorem replaceChar_append (c : Char) (new a b : Text) :
    replaceChar c new (a ++ b) = replaceChar c new a ++ replaceChar c new b := List.flatMap_append

theorem encodeProxyPath_eq (t : Text) : encodeProxyPath t = percentEncode encodesInProxy t := by
  have hquestion : (toUtf8 ['?']).flatMap escapeByte = "%3F".toList := by decide
  have hhash : (toUtf8 ['#']).flatMap escapeByte = "%23".toList := by decide
  have htwice : replaceChar '#' "%23".toList "%3F".toList = "%3F".toList := by decide
  induction t with
  | nil => rfl
  | cons c t ih =>
    unfold encodeProxyPath at ih ⊢
    rw [replaceChar_cons, replaceChar_append, ih]
    by_cases hc : c = '?'
    · rw [hc, percentEncode_cons (by decide), hquestion, if_pos rfl, htwice]
    · rw [if_neg hc]
      by_cases hc' : c = '#'
      · rw [hc', percentEncode_cons (by decide), hhash]
        rfl
      · rw [percentEncode_cons_of_not (by simp [encodesInProxy, hc, hc'])]
        simp [replaceChar, hc']

theorem encodesInProxy_safe : EscapesSafely encodesInProxy where
  percent := rfl
  hex c h := by
    by_contra hc
    have hcases : c = '?' ∨ c = '#' := by simpa [encodesInProxy, or_iff_not_imp_left] using hc
    rcases hcases with rfl | rfl
    · exact absurd h (by decide)
    · exact absurd h (by decide)

/-- Escaping brings no group into a replacement. -/
theorem expandsDollar_encode (h : expandsDollar s = false) :
    expandsDollar (encodeProxyPath s) = false := by
  rw [encodeProxyPath_eq]
  fun_induction expandsDollar s with
  | case1 x s ih =>
    simp only [Bool.or_eq_false_iff] at h
    have hrest := ih h.2
    rw [percentEncode_cons_of_not (by decide)]
    cases hx : encodesInProxy x with
    | true =>
      obtain ⟨r, hr⟩ := exists_percent x
      rw [percentEncode_cons hx, hr] at hrest ⊢
      simp only [List.cons_append] at hrest ⊢
      rw [expandsDollar, hrest]
      rfl
    | false =>
      rw [percentEncode_cons_of_not hx] at hrest ⊢
      rw [expandsDollar, hrest, Bool.or_false]
      simpa [and_assoc] using h.1
  | case2 x s hshort ih =>
    have hrest := ih h
    cases hx : encodesInProxy x with
    | true =>
      have hdollar : '$' ∉ (toUtf8 [x]).flatMap escapeByte := fun hmem =>
        absurd (mem_flatMap_escapeByte hmem) (by decide)
      rw [percentEncode_cons hx, expandsDollar_of_not_mem hdollar]
      exact hrest
    | false =>
      rw [percentEncode_cons_of_not hx]
      by_cases hdollar : x = '$'
      · subst hdollar
        cases s with
        | nil => rfl
        | cons y s => exact (hshort y s rfl rfl).elim
      · rw [expandsDollar]
        · exact hrest
        · rintro y s' rfl
          exact absurd rfl hdollar
  | case3 => rfl

end Replacement

/-! ## The value that the browser finds -/

section Value

variable {mac : Bytes → Bytes → Bytes} {secrets : Text → Option Bytes}
  {signer : ProxySigner secrets} {issued : UnixTime} {url : Text}

variable (mac signer issued url) in
/-- The query of a signed URL. -/
def signedQuery : Text :=
  "exp=".toList ++ (signedDecimal (sigExp issued) ++
    '&' :: ("sig=".toList ++ (computeSig mac signer.secret signer.userId url (sigExp issued) ++
      '&' :: ("uid=".toList ++ signer.userId))))

theorem signUrl_eq : signer.signUrl mac issued url =
    proxyPrefix ++ (encodeProxyPath url ++ '?' :: signedQuery mac signer issued url) := by
  have hexp : "?exp=".toList = ['?', 'e', 'x', 'p', '='] := by decide
  have hexp' : "exp=".toList = ['e', 'x', 'p', '='] := by decide
  have hsig : "&sig=".toList = ['&', 's', 'i', 'g', '='] := by decide
  have hsig' : "sig=".toList = ['s', 'i', 'g', '='] := by decide
  have huid : "&uid=".toList = ['&', 'u', 'i', 'd', '='] := by decide
  have huid' : "uid=".toList = ['u', 'i', 'd', '='] := by decide
  -- for any texts, so that nothing is unfolded
  have hassoc : ∀ a b c d e : Text,
      a ++ b ++ ['?', 'e', 'x', 'p', '='] ++ c ++ ['&', 's', 'i', 'g', '='] ++ d ++
          ['&', 'u', 'i', 'd', '='] ++ e =
        a ++ (b ++ '?' :: (['e', 'x', 'p', '='] ++ (c ++ '&' :: (['s', 'i', 'g', '='] ++
          (d ++ '&' :: (['u', 'i', 'd', '='] ++ e)))))) := by
    simp
  unfold ProxySigner.signUrl signedQuery
  rw [hexp, hexp', hsig, hsig', huid, huid']
  exact hassoc _ _ _ _ _

theorem mem_hexEncode {bytes : Bytes} {c : Char} (h : c ∈ hexEncode bytes) :
    c ∈ "0123456789abcdef".toList := by
  have hall : ∀ n < 16, Nat.digitChar n ∈ "0123456789abcdef".toList := by decide
  obtain ⟨b, -, hc⟩ := List.mem_flatMap.mp h
  have hb := b.toNat_lt
  simp only [List.mem_cons, List.not_mem_nil, or_false] at hc
  rcases hc with rfl | rfl
  · exact hall _ (by omega)
  · exact hall _ (by omega)

/-- The characters of a query: those that no layer touches, and the signs between the fields. -/
def isQueryChar (c : Char) : Bool := c.isAlphanum || c == '-' || c == '=' || c == '&'

theorem isDigit_alphanum {c : Char} (h : c.isDigit = true) : c.isAlphanum = true := by
  simp [Char.isAlphanum, h]

theorem isAlphanum_signedDecimal {n : Int} {c : Char} (h : c ∈ signedDecimal n) :
    c.isAlphanum = true ∨ c = '-' := by
  cases n with
  | ofNat n => exact .inl (isDigit_alphanum (isDigit_of_mem_decimal h))
  | negSucc n =>
    rcases List.mem_cons.mp h with rfl | h
    · exact .inr rfl
    · exact .inl (isDigit_alphanum (isDigit_of_mem_decimal h))

theorem isAlphanum_hexEncode {bytes : Bytes} {c : Char} (h : c ∈ hexEncode bytes) :
    c.isAlphanum = true ∨ c = '-' := by
  have hall : ∀ c ∈ "0123456789abcdef".toList, c.isAlphanum = true := forall_mem_of_all (by decide)
  exact .inl (hall c (mem_hexEncode h))

theorem isQueryChar_signedQuery {c : Char} (h : c ∈ signedQuery mac signer issued url) :
    isQueryChar c = true := by
  have hfield : ∀ c : Char, c.isAlphanum = true ∨ c = '-' → isQueryChar c = true := by
    rintro c (hc | rfl)
    · simp [isQueryChar, hc]
    · rfl
  have hnames : ∀ c ∈ "exp=".toList ++ ("sig=".toList ++ "uid=".toList), isQueryChar c = true :=
    forall_mem_of_all (by decide)
  unfold signedQuery at h
  simp only [List.mem_append, List.mem_cons] at h
  simp only [List.mem_append] at hnames
  rcases h with h | h | rfl | h | h | rfl | h | h
  · exact hnames c (.inl h)
  · exact hfield c (isAlphanum_signedDecimal h)
  · rfl
  · exact hnames c (.inr (.inl h))
  · exact hfield c (isAlphanum_hexEncode h)
  · rfl
  · exact hnames c (.inr (.inr h))
  · exact hfield c (signer.uuid c h)

theorem not_mem_signedQuery {c : Char} (h : isQueryChar c = false) :
    c ∉ signedQuery mac signer issued url := by
  intro hmem
  rw [isQueryChar_signedQuery hmem] at h
  cases h

/-- Without groups in the source, the browser finds the signed URL. -/
theorem proxiedSrc_eq {raw : Text} (hquote : '"' ∉ raw)
    (h : expandsDollar (capturedSrc raw) = false) :
    proxiedSrc mac signer issued raw =
      proxyPrefix ++ (encodeProxyPath (capturedSrc raw) ++
        '?' :: signedQuery mac signer issued (capturedSrc raw)) := by
  have hdollar : expandsDollar ("src=\"".toList ++
      signer.signUrl mac issued (capturedSrc raw) ++ ['"']) = false := by
    have hstart : '$' ∉ "src=\"".toList := by decide
    have hstarts : '$' ∉ proxyPrefix := by decide
    have htail : '$' ∉ '?' :: signedQuery mac signer issued (capturedSrc raw) ++ ['"'] := by
      intro hmem
      simp only [List.cons_append, List.mem_cons, List.mem_append, List.not_mem_nil,
        or_false] at hmem
      rcases hmem with hmem | hmem | hmem
      · exact absurd hmem (by decide)
      · exact not_mem_signedQuery (by decide) hmem
      · exact absurd hmem (by decide)
    rw [signUrl_eq, List.append_assoc, expandsDollar_of_not_mem hstart, List.append_assoc,
      expandsDollar_of_not_mem hstarts, List.append_assoc, List.cons_append,
      expandsDollar_append (by decide) (by decide) (by decide), expandsDollar_encode h,
      Bool.false_or]
    have hnone := expandsDollar_of_not_mem
      (fun hmem => htail (List.mem_cons_of_mem _ hmem) :
        '$' ∉ signedQuery mac signer issued (capturedSrc raw) ++ ['"']) []
    rw [List.append_nil] at hnone
    exact hnone
  have hplain : ∀ c ∈ signer.signUrl mac issued (capturedSrc raw), decide (c ≠ '"') = true := by
    intro c hc
    refine decide_eq_true ?_
    rintro rfl
    rw [signUrl_eq, encodeProxyPath_eq] at hc
    rcases List.mem_append.mp hc with hc | hc
    · exact absurd hc (by decide)
    · rcases List.mem_append.mp hc with hc | hc
      · rcases mem_percentEncode hc with hc | ⟨hc, -⟩
        · exact absurd hc (by decide)
        · exact hquote ((List.takeWhile_sublist _).subset hc)
      · rcases List.mem_cons.mp hc with hc | hc
        · exact absurd hc (by decide)
        · exact not_mem_signedQuery (by decide) hc
  unfold proxiedSrc rewrittenAttr
  simp only
  rw [expandGroups_of_not hdollar (Nat.lt_succ_self _), List.append_assoc]
  have hdrop : ("src=\"".toList ++ (signer.signUrl mac issued (capturedSrc raw) ++ ['"'])).drop
      "src=\"".length = signer.signUrl mac issued (capturedSrc raw) ++ ['"'] := List.drop_left' rfl
  rw [hdrop, List.takeWhile_append_of_pos hplain, ← signUrl_eq]
  simp

/-! ### Character references -/

theorem decodeRefs_of_not {a : Text} (h : '&' ∉ a) (t : Text) :
    decodeRefs (a ++ t) = a ++ decodeRefs t := by
  induction a with
  | nil => rfl
  | cons c a ih =>
    obtain ⟨hc, ha⟩ := List.ne_and_not_mem_of_not_mem_cons h
    rw [List.cons_append, decodeRefs, ih ha]
    · rfl
    all_goals
      rintro s' rfl
      exact absurd rfl hc

theorem decodeRefs_amp {c : Char} (h : c ∉ ['a', 'n', 'q', 'l', 'g']) (t : Text) :
    decodeRefs ('&' :: c :: t) = '&' :: decodeRefs (c :: t) := by
  rw [decodeRefs]
  all_goals
    rintro s' - ⟨rfl, rfl⟩
    exact h (by decide)

/-- A reference is read as its character, whether the URL was escaped or not. -/
theorem decodeRefs_ref (r : CharRef) (t : Text) :
    decodeRefs (encodeProxyPath r.text ++ t) = encodeProxyPath [r.char] ++ decodeRefs t := by
  cases r <;> rfl

theorem decodeRefs_items (items : List AttrItem) (t : Text) :
    decodeRefs (encodeProxyPath (rawText items) ++ t) =
      encodeProxyPath (meantText items) ++ decodeRefs t := by
  have hcons : ∀ a b : Text, encodeProxyPath (a ++ b) = encodeProxyPath a ++ encodeProxyPath b := by
    intro a b
    rw [encodeProxyPath_eq, encodeProxyPath_eq, encodeProxyPath_eq, percentEncode_append]
  induction items with
  | nil => rfl
  | cons item items ih =>
    have hraw : rawText (item :: items) = item.text ++ rawText items := rfl
    have hmeant : meantText (item :: items) = [item.meaning] ++ meantText items := rfl
    rw [hraw, hmeant, hcons, hcons, List.append_assoc, List.append_assoc, ← ih]
    cases item with
    | ref r => exact decodeRefs_ref r _
    | char c plain =>
      refine decodeRefs_of_not ?_ _
      intro hmem
      rw [encodeProxyPath_eq] at hmem
      rcases mem_percentEncode hmem with hmem | ⟨hmem, -⟩
      · exact absurd hmem (by decide)
      · exact plain.1 (List.mem_singleton.mp hmem).symm

theorem ampersand_not_mem {s : Text} (h : ∀ c ∈ s, c.isAlphanum = true ∨ c = '-') : '&' ∉ s := by
  intro hmem
  rcases h _ hmem with h | h
  · exact absurd h (by decide)
  · exact absurd h (by decide)

theorem decodeRefs_query :
    decodeRefs ('?' :: signedQuery mac signer issued url) =
      '?' :: signedQuery mac signer issued url := by
  have hexp : '&' ∉ signedDecimal (sigExp issued) := ampersand_not_mem fun _ => isAlphanum_signedDecimal
  have hsig : '&' ∉ computeSig mac signer.secret signer.userId url (sigExp issued) :=
    ampersand_not_mem fun _ => isAlphanum_hexEncode
  have huid := decodeRefs_of_not (ampersand_not_mem signer.uuid) []
  have hnil : decodeRefs [] = [] := rfl
  rw [List.append_nil, hnil, List.append_nil] at huid
  have hsigName : "sig=".toList = ['s', 'i', 'g', '='] := by decide
  have huidName : "uid=".toList = ['u', 'i', 'd', '='] := by decide
  have hhead : ∀ c : Char, c ≠ '&' → ∀ t, decodeRefs (c :: t) = c :: decodeRefs t := by
    intro c hc t
    exact decodeRefs_of_not (a := [c]) (by simpa using hc.symm) t
  unfold signedQuery
  rw [hsigName, huidName, hhead '?' (by decide), decodeRefs_of_not (by decide),
    decodeRefs_of_not hexp]
  simp only [List.cons_append, List.nil_append]
  rw [decodeRefs_amp (by decide), hhead 's' (by decide), hhead 'i' (by decide),
    hhead 'g' (by decide), hhead '=' (by decide), decodeRefs_of_not hsig,
    decodeRefs_amp (by decide), hhead 'u' (by decide), hhead 'i' (by decide),
    hhead 'd' (by decide), hhead '=' (by decide), huid]

/-! ### What the pattern finds -/

/-- The pattern finds the items before the first apostrophe. -/
theorem exists_captured (items : List AttrItem) :
    ∃ found rest, items = found ++ rest ∧ capturedSrc (rawText items) = rawText found ∧
      '\'' ∉ rawText found ∧ (rest = [] ∨ '\'' ∈ meantText rest) := by
  induction items with
  | nil => exact ⟨[], [], rfl, rfl, List.not_mem_nil, .inl rfl⟩
  | cons item items ih =>
    obtain ⟨found, rest, hitems, hcaptured, hfound, hrest⟩ := ih
    have hraw : rawText (item :: items) = item.text ++ rawText items := rfl
    by_cases hitem : '\'' ∈ item.text
    · refine ⟨[], item :: items, rfl, ?_, List.not_mem_nil, .inr ?_⟩
      · cases item with
        | ref r => cases r <;> exact absurd hitem (by decide)
        | char c plain =>
          have hc : c = '\'' := (List.mem_singleton.mp hitem).symm
          subst hc
          rfl
      · cases item with
        | ref r => cases r <;> exact absurd hitem (by decide)
        | char c plain =>
          rw [List.mem_singleton.mp hitem]
          exact List.mem_cons_self
    · refine ⟨item :: found, rest, by rw [hitems]; rfl, ?_, ?_, hrest⟩
      · have hrefs : ∀ r : CharRef, ∀ c ∈ r.text, (!isQuote c) = true := by
          intro r
          cases r <;> exact forall_mem_of_all (by decide)
        have hplain : ∀ c ∈ item.text, (!isQuote c) = true := by
          intro c hc
          have hne : c ≠ '\'' := fun h => hitem (h ▸ hc)
          cases item with
          | ref r => exact hrefs r c hc
          | char x plain =>
            rw [List.mem_singleton.mp hc] at hne ⊢
            simp [isQuote, hne, plain.2]
        unfold capturedSrc at hcaptured ⊢
        rw [hraw, List.takeWhile_append_of_pos hplain, hcaptured]
        rfl
      · intro hmem
        rcases List.mem_append.mp hmem with hmem | hmem
        · exact hitem hmem
        · exact hfound hmem

/-! ### The request -/

theorem ne_of_isQueryChar {c x : Char} (hc : isQueryChar c = true) (hx : isQueryChar x = false) :
    c ≠ x := by
  rintro rfl
  rw [hc] at hx
  cases hx

def routePrefix : Text := "api/v1/proxy/".toList

theorem proxyPrefix_eq : proxyPrefix = '/' :: routePrefix := by
  have hlong : "/api/v1/proxy/".toList =
      ['/', 'a', 'p', 'i', '/', 'v', '1', '/', 'p', 'r', 'o', 'x', 'y', '/'] := by decide
  have hshort : "api/v1/proxy/".toList =
      ['a', 'p', 'i', '/', 'v', '1', '/', 'p', 'r', 'o', 'x', 'y', '/'] := by decide
  unfold proxyPrefix routePrefix
  rw [hlong, hshort]

theorem toNat_lt_of_isAlphanum {c : Char} (h : c.isAlphanum = true) : c.toNat < 128 := by
  have hle : ∀ d : Char, c.val ≤ d.val → c.toNat ≤ d.toNat := fun d hd => hd
  delta Char.isAlphanum Char.isAlpha Char.isUpper Char.isLower Char.isDigit at h
  simp only [Bool.or_eq_true, Bool.and_eq_true, decide_eq_true_eq] at h
  rcases h with (⟨-, h⟩ | ⟨-, h⟩) | ⟨-, h⟩
  · exact Nat.lt_of_le_of_lt (hle 'Z' h) (by decide)
  · exact Nat.lt_of_le_of_lt (hle 'z' h) (by decide)
  · exact Nat.lt_of_le_of_lt (hle '9' h) (by decide)

theorem encodesInQuery_of_isQueryChar {c : Char} (h : isQueryChar c = true) :
    encodesInQuery c = false := by
  have hall : ∀ n < 128, isQueryChar (Char.ofNat n) = true →
      encodesInQuery (Char.ofNat n) = false := by decide
  have hascii : c.toNat < 128 := by
    unfold isQueryChar at h
    simp only [Bool.or_eq_true, beq_iff_eq] at h
    rcases h with ((h | rfl) | rfl) | rfl
    · exact toNat_lt_of_isAlphanum h
    all_goals decide
  have hc := hall c.toNat hascii
  rw [Char.ofNat_toNat] at hc
  exact hc h

/-- The path and the query of a request for a signed URL. -/
theorem browserRequest_eq {value u q : Text} (hq : ∀ c ∈ q, isQueryChar c = true)
    (hvalue : decodeRefs value = proxyPrefix ++ (encodeProxyPath u ++ '?' :: q)) :
    browserRequest value =
      (requestPath (routePrefix ++ encodeProxyPath (u.filter keepsInUrl)), q) := by
  have hkeep : q.filter keepsInUrl = q := by
    refine List.filter_eq_self.mpr fun c hc => ?_
    have htab := ne_of_isQueryChar (hq c hc) (by decide : isQueryChar '\t' = false)
    have hlf := ne_of_isQueryChar (hq c hc) (by decide : isQueryChar '\n' = false)
    have hcr := ne_of_isQueryChar (hq c hc) (by decide : isQueryChar '\r' = false)
    simp [keepsInUrl, htab, hlf, hcr]
  have hstarts : proxyPrefix.filter keepsInUrl = proxyPrefix :=
    List.filter_eq_self.mpr (forall_mem_of_all (by decide))
  have hfilter : (decodeRefs value).filter keepsInUrl =
      (proxyPrefix ++ encodeProxyPath (u.filter keepsInUrl)) ++ '?' :: q := by
    rw [hvalue, List.filter_append, List.filter_append, List.filter_cons_of_pos (by decide), hkeep,
      hstarts, encodeProxyPath_eq, encodeProxyPath_eq,
      filter_percentEncode (forall_mem_of_all (by decide)), List.append_assoc]
    intro c hc
    have hcases : c = '?' ∨ c = '#' := by simpa [encodesInProxy] using hc
    rcases hcases with rfl | rfl <;> rfl
  have hpath : ∀ c ∈ proxyPrefix ++ encodeProxyPath (u.filter keepsInUrl),
      (!(['?', '#'].contains c)) = true := by
    intro c hc
    rcases List.mem_append.mp hc with hc | hc
    · exact (forall_mem_of_all (by decide) : ∀ c ∈ proxyPrefix, (!(['?', '#'].contains c)) = true) c hc
    · rw [encodeProxyPath_eq] at hc
      rcases mem_percentEncode hc with hc | ⟨-, hc⟩
      · exact (forall_mem_of_all (by decide) : ∀ c ∈ '%' :: "0123456789ABCDEF".toList,
          (!(['?', '#'].contains c)) = true) c hc
      · simpa [encodesInProxy] using hc
  have hquery : q.takeWhile (· ≠ '#') = q := by
    refine List.takeWhile_eq_self_iff.mpr fun c hc => ?_
    exact decide_eq_true (ne_of_isQueryChar (hq c hc) (by decide))
  unfold browserRequest
  simp only
  rw [hfilter, List.takeWhile_append_of_pos hpath, List.takeWhile_cons_of_neg (by decide),
    List.append_nil, List.drop_left, proxyPrefix_eq]
  simp only [List.cons_append, List.drop_succ_cons, List.drop_zero]
  rw [hquery, percentEncode_of_not fun c hc => encodesInQuery_of_isQueryChar (hq c hc)]

theorem parseI64_sigExp (issued : UnixTime) :
    parseI64 (signedDecimal (sigExp issued)) = some (sigExp issued) := by
  have hexp : sigExp issued = Int.ofNat (issued.val + sigTtlSecs) := rfl
  have hbound : issued.val + sigTtlSecs < 2 ^ 63 := by
    have := issued.isLt
    unfold sigTtlSecs
    omega
  have hsign : ∀ s, decimal (issued.val + sigTtlSecs) ≠ '-' :: s := fun s hs =>
    not_mem_decimal (by decide : '-'.isDigit = false) (hs ▸ List.mem_cons_self)
  rw [hexp, signedDecimal, parseI64]
  · rw [parseUnsigned_decimal hbound]
    rfl
  · exact hsign

theorem formDecode_of_plain {t : Text} (h : ∀ c ∈ t, c.isAlphanum = true ∨ c = '-') :
    formDecode t = some t := by
  have hne : ∀ x : Char, x.isAlphanum = false → x ≠ '-' → x ∉ t := by
    intro x hx hdash hmem
    rcases h x hmem with hc | hc
    · rw [hc] at hx
      cases hx
    · exact hdash hc
  have hplus : replaceChar '+' [' '] t = t := by
    have hself : ∀ c ∈ t, (if c = '+' then [' '] else [c]) = [c] := by
      intro c hc
      exact if_neg (ne_of_mem_of_not_mem hc (hne '+' (by decide) (by decide)))
    unfold replaceChar
    rw [List.flatMap_congr hself]
    exact List.flatMap_singleton' t
  have hpercent : hasEscape t = false := hasEscape_of_not_mem (hne '%' (by decide) (by decide))
  unfold formDecode
  rw [hplus, decodeEscapes_of_not hpercent, ofUtf8_toUtf8]

/-- A query of three fields, read for one of them. -/
theorem queryField_of_three {name : String} {q a b c ka kb kc va vb vc : Text}
    (hq : q.splitOn '&' = [a, b, c]) (ha : splitOnce '=' a = some (ka, va))
    (hb : splitOnce '=' b = some (kb, vb)) (hc : splitOnce '=' c = some (kc, vc)) :
    (ka = name.toList → kb ≠ name.toList → kc ≠ name.toList →
        queryField name q = formDecode va) ∧
      (ka ≠ name.toList → kb = name.toList → kc ≠ name.toList →
        queryField name q = formDecode vb) ∧
      (ka ≠ name.toList → kb ≠ name.toList → kc = name.toList →
        queryField name q = formDecode vc) := by
  unfold queryField
  rw [hq]
  simp only [List.filterMap_cons, List.filterMap_nil, ha, hb, hc, Option.bind_some]
  refine ⟨?_, ?_, ?_⟩
  · intro h1 h2 h3
    rw [if_pos h1, if_neg h2, if_neg h3]
  · intro h1 h2 h3
    rw [if_neg h1, if_pos h2, if_neg h3]
  · intro h1 h2 h3
    rw [if_neg h1, if_neg h2, if_pos h3]

theorem parseProxyQuery_eq {q e sig uid : Text} {exp : Int} (hexp : queryField "exp" q = some e)
    (he : parseI64 e = some exp) (hsig : queryField "sig" q = some sig)
    (huid : queryField "uid" q = some uid) : parseProxyQuery q = some ⟨exp, sig, uid⟩ := by
  unfold parseProxyQuery
  rw [hexp, hsig, huid]
  simp only [Option.bind_eq_bind, Option.bind_some, he, Option.pure_def]

theorem parseProxyQuery_signedQuery : parseProxyQuery (signedQuery mac signer issued url) =
    some ⟨sigExp issued, computeSig mac signer.secret signer.userId url (sigExp issued),
      signer.userId⟩ := by
  have hexp : ∀ c ∈ signedDecimal (sigExp issued), c.isAlphanum = true ∨ c = '-' :=
    fun _ => isAlphanum_signedDecimal
  have hsig : ∀ c ∈ computeSig mac signer.secret signer.userId url (sigExp issued),
      c.isAlphanum = true ∨ c = '-' := fun _ => isAlphanum_hexEncode
  have hfields : (signedQuery mac signer issued url).splitOn '&' =
      ["exp=".toList ++ signedDecimal (sigExp issued),
        "sig=".toList ++ computeSig mac signer.secret signer.userId url (sigExp issued),
        "uid=".toList ++ signer.userId] := by
    have hname : ∀ name ∈ ["exp=".toList, "sig=".toList, "uid=".toList], '&' ∉ name :=
      forall_mem_of_all (by decide)
    unfold signedQuery
    rw [← List.append_assoc, List.splitOn_append_cons_self_of_not_mem, ← List.append_assoc,
      List.splitOn_append_cons_self_of_not_mem, List.splitOn_eq_singleton]
    · exact List.not_mem_append (hname _ (by simp)) (ampersand_not_mem signer.uuid)
    · exact List.not_mem_append (hname _ (by simp)) (ampersand_not_mem hsig)
    · exact List.not_mem_append (hname _ (by simp)) (ampersand_not_mem hexp)
  have hpair : ∀ name value : Text, '=' ∉ name →
      splitOnce '=' (name ++ ['='] ++ value) = some (name, value) := by
    intro name value hname
    rw [List.append_assoc]
    exact splitOnce_append hname value
  have hexpName : "exp=".toList = "exp".toList ++ ['='] := by decide
  have hsigName : "sig=".toList = "sig".toList ++ ['='] := by decide
  have huidName : "uid=".toList = "uid".toList ++ ['='] := by decide
  have hexpPair : ∀ v, splitOnce '=' ("exp=".toList ++ v) = some ("exp".toList, v) := by
    intro v
    rw [hexpName, hpair _ _ (by decide)]
  have hsigPair : ∀ v, splitOnce '=' ("sig=".toList ++ v) = some ("sig".toList, v) := by
    intro v
    rw [hsigName, hpair _ _ (by decide)]
  have huidPair : ∀ v, splitOnce '=' ("uid=".toList ++ v) = some ("uid".toList, v) := by
    intro v
    rw [huidName, hpair _ _ (by decide)]
  have hnames : ("sig".toList ≠ "exp".toList ∧ "uid".toList ≠ "exp".toList) ∧
      ("exp".toList ≠ "sig".toList ∧ "uid".toList ≠ "sig".toList) ∧
      "exp".toList ≠ "uid".toList ∧ "sig".toList ≠ "uid".toList := by decide
  obtain ⟨⟨hne1, hne2⟩, ⟨hne3, hne4⟩, hne5, hne6⟩ := hnames
  have hexpField := (queryField_of_three hfields (hexpPair _) (hsigPair _) (huidPair _)).1 rfl hne1 hne2
  have hsigField := (queryField_of_three hfields (hexpPair _) (hsigPair _) (huidPair _)).2.1 hne3 rfl
    hne4
  have huidField := (queryField_of_three hfields (hexpPair _) (hsigPair _) (huidPair _)).2.2 hne5 hne6
    rfl
  rw [formDecode_of_plain hexp] at hexpField
  rw [formDecode_of_plain hsig] at hsigField
  rw [formDecode_of_plain signer.uuid] at huidField
  exact parseProxyQuery_eq hexpField (parseI64_sigExp issued) hsigField huidField

end Value

/-! ## What comes back -/

section Recovered

variable {u s t : Text}

theorem replaceText_length {pat new : Text} (h : (toUtf8 new).length ≤ (toUtf8 pat).length)
    (fuel : Nat) (s : Text) :
    (toUtf8 (replaceText pat new fuel s)).length ≤ (toUtf8 s).length := by
  induction fuel generalizing s with
  | zero => exact Nat.le_refl _
  | succ fuel ih =>
    rw [replaceText]
    split
    · exact Nat.le_refl _
    · rename_i i hfind
      have hs := congrArg (fun s => (toUtf8 s).length) (findText_eq_some hfind)
      have hrest := ih (s.drop (i + pat.length))
      simp only [toUtf8_append, List.length_append] at hs ⊢
      omega

theorem replaceAll_of_not {x y : Char} (hpair : (hexPair x y).isSome = true) (new : Text)
    (h : hasEscape s = false) : replaceAll ['%', x, y] new s = s := by
  have hfind : findText ['%', x, y] s = none := by
    cases hfind : findText ['%', x, y] s with
    | none => rfl
    | some i =>
      have hs := findText_eq_some hfind
      have hescape := hasEscape_of_hexPair hpair (s.take i) (s.drop (i + 3))
      rw [hs] at h
      cases h.symm.trans hescape
  unfold replaceAll
  rw [replaceText, hfind]

theorem length_decodeProxyPath (t : Text) :
    (toUtf8 (decodeProxyPath t)).length ≤ (toUtf8 t).length :=
  (replaceText_length (by decide) _ _).trans (replaceText_length (by decide) _ _)

theorem decodeProxyPath_of_not (h : hasEscape t = false) : decodeProxyPath t = t := by
  have hquestion : "%3F".toList = ['%', '3', 'F'] := by decide
  have hhash : "%23".toList = ['%', '2', '3'] := by decide
  unfold decodeProxyPath
  rw [hquestion, hhash, replaceAll_of_not (by decide) _ h, replaceAll_of_not (by decide) _ h]

/-- What the proxy gets out of the path for a URL. -/
def recovered (u : Text) : Option Text :=
  (routeTarget (requestPath (routePrefix ++ encodeProxyPath (u.filter keepsInUrl)))).map
    decodeProxyPath

theorem decodeEscapes_route_start (t : Text) :
    (decodeEscapes (proxyPrefix ++ t)).length = 14 + (decodeEscapes t).length := by
  have hstarts : proxyPrefix = "/api/v1/proxy".toList ++ ['/'] := by decide
  have hlength : (decodeEscapes "/api/v1/proxy".toList).length = 13 := by decide
  rw [hstarts, List.append_assoc, List.singleton_append, decodeEscapes_slash, List.length_append,
    List.length_cons, hlength]
  omega

theorem routeTarget_eq_some {path target : Text} (h : routeTarget path = some target) :
    (decodeEscapes path).length = 14 + (toUtf8 target).length ∧
      toUtf8 target = decodeEscapes (path.drop proxyPrefix.length) := by
  unfold routeTarget at h
  split at h
  · rename_i hstarts
    obtain ⟨rest, rfl⟩ := List.isPrefixOf_iff_prefix.mp (Bool.and_eq_true_iff.mp hstarts).1
    have hbytes := toUtf8_of_ofUtf8 h
    refine ⟨?_, hbytes⟩
    rw [List.drop_left] at hbytes
    rw [decodeEscapes_route_start, hbytes]
  · cases h

/-- No layer between the signature and the proxy changes the URL. -/
structure Unchanged (u : Text) : Prop where
  chars : ∀ c ∈ u, c ∉ ['\\', '\t', '\n', '\r']
  escapes : hasEscape u = false
  dots : ∀ segment ∈ u.splitOnP isPathBreak, segment ≠ ['.'] ∧ segment ≠ ['.', '.']

theorem toUtf8_inj (h : toUtf8 s = toUtf8 t) : s = t := by
  have hs := ofUtf8_toUtf8 s
  rw [h, ofUtf8_toUtf8] at hs
  exact (Option.some.inj hs).symm

/-- The segments of the path for a URL without escapes. -/
theorem isDots_segments (h : hasEscape u = false) :
    (∀ s ∈ (routePrefix ++ encodeProxyPath u).splitOnP isPathBreak, isDots s = false) ↔
      ∀ s ∈ u.splitOnP isPathBreak, s ≠ ['.'] ∧ s ≠ ['.', '.'] := by
  have hstarts : routePrefix = "api/v1/proxy".toList ++ ['/'] := by decide
  have hroute : ∀ s ∈ "api/v1/proxy".toList.splitOnP isPathBreak, isDots s = false := by decide
  have hbreak : ∀ c, isPathBreak c = true → encodesInProxy c = false := by
    intro c hc
    rcases isPathBreak_cases hc with rfl | rfl <;> rfl
  rw [hstarts, List.append_assoc, List.singleton_append, List.splitOnP_append_cons _ _ (by decide),
    encodeProxyPath_eq, splitOnP_percentEncode hbreak]
  constructor
  · intro hall s hs
    have hdots := hall _ (List.mem_append_right _ (List.mem_map_of_mem hs))
    constructor
    · rintro rfl
      exact absurd hdots (by decide)
    · rintro rfl
      exact absurd hdots (by decide)
  · intro hall s hs
    rcases List.mem_append.mp hs with hs | hs
    · exact hroute s hs
    · obtain ⟨x, hx, rfl⟩ := List.mem_map.mp hs
      by_contra hdots
      have hx' := decodeEscapes_of_isDots (by simpa using hdots)
      rw [decodeEscapes_percentEncode encodesInProxy_safe,
        decodeEscapes_of_not (hasEscape_of_mem_splitOnP h hx)] at hx'
      rcases hx' with hx' | hx'
      · exact (hall x hx).1 (toUtf8_inj hx')
      · exact (hall x hx).2 (toUtf8_inj hx')

theorem slashes_encodeProxyPath (u : Text) :
    slashes (encodeProxyPath u) = encodeProxyPath (slashes u) := by
  rw [encodeProxyPath_eq, encodeProxyPath_eq]
  induction u with
  | nil => rfl
  | cons c u ih =>
    have hcons : slashes (c :: u) = slashes [c] ++ slashes u := rfl
    rw [hcons, percentEncode_append, ← ih, ← List.singleton_append, percentEncode_append,
      slashes_append]
    congr 1
    by_cases hc : encodesInProxy c = true
    · have hcases : c = '?' ∨ c = '#' := by simpa [encodesInProxy] using hc
      rcases hcases with rfl | rfl <;> decide
    · by_cases hbreak : isPathBreak c = true
      · rcases isPathBreak_cases hbreak with rfl | rfl <;> decide
      · have hself : slashes [c] = [c] := by simp [slashes, hbreak]
        rw [hself, percentEncode_of_not (by simpa using hc), hself]

/-- A path without dot segments is only decoded. -/
theorem routeTarget_of_plain {f : Text} (hne : f ≠ [])
    (hdots : ∀ s ∈ (routePrefix ++ encodeProxyPath f).splitOnP isPathBreak, isDots s = false) :
    routeTarget (requestPath (routePrefix ++ encodeProxyPath f)) =
      ofUtf8 (decodeEscapes (slashes f)) := by
  have hroute : slashes routePrefix = routePrefix := by decide
  have hstarts : percentEncode encodesInPath proxyPrefix = proxyPrefix :=
    percentEncode_of_not (forall_mem_of_all (by decide))
  have hlength : 0 < (percentEncode encodesInPath (encodeProxyPath (slashes f))).length := by
    refine List.length_pos_iff.mpr fun hnil => hne ?_
    have hbytes := decodeEscapes_percentEncode encodesInPath_safe (encodeProxyPath (slashes f))
    rw [hnil, encodeProxyPath_eq, decodeEscapes_percentEncode encodesInProxy_safe] at hbytes
    by_contra hf
    have hpos := length_decodeEscapes_pos (s := slashes f) (by simpa [slashes] using hf)
    rw [← hbytes] at hpos
    exact Nat.lt_irrefl _ hpos
  rw [requestPath_of_plain hdots, slashes_append, hroute, ← List.cons_append, ← proxyPrefix_eq,
    percentEncode_append, hstarts, slashes_encodeProxyPath]
  unfold routeTarget
  rw [if_pos, List.drop_left, decodeEscapes_percentEncode encodesInPath_safe, encodeProxyPath_eq,
    decodeEscapes_percentEncode encodesInProxy_safe]
  rw [Bool.and_eq_true, decide_eq_true_eq, List.length_append]
  exact ⟨List.isPrefixOf_iff_prefix.mpr (List.prefix_append _ _), by omega⟩

theorem filter_keepsInUrl_eq_self :
    u.filter keepsInUrl = u ↔ ∀ c ∈ u, c ∉ ['\t', '\n', '\r'] := by
  rw [List.filter_eq_self]
  simp [keepsInUrl]

theorem recovered_of_unchanged (hne : u ≠ []) (h : Unchanged u) : recovered u = some u := by
  have hkeep : u.filter keepsInUrl = u := filter_keepsInUrl_eq_self.mpr fun c hc hmem =>
    h.chars c hc (List.mem_cons_of_mem _ hmem)
  have hslashes : slashes u = u := slashes_of_not_mem fun hmem => h.chars _ hmem (by simp)
  unfold recovered
  rw [hkeep, routeTarget_of_plain hne ((isDots_segments h.escapes).mpr h.dots), hslashes,
    decodeEscapes_of_not h.escapes, ofUtf8_toUtf8, Option.map_some, decodeProxyPath_of_not h.escapes]

theorem length_toUtf8_filter (p : Char → Bool) (u : Text) :
    u.filter p = u ∨ (toUtf8 (u.filter p)).length < (toUtf8 u).length := by
  induction u with
  | nil => exact .inl rfl
  | cons c u ih =>
    rw [List.filter_cons, toUtf8_cons, List.length_append]
    split
    · rw [toUtf8_cons, List.length_append]
      rcases ih with heq | hlt
      · exact .inl (by rw [heq])
      · exact .inr (by omega)
    · have hpos := length_toUtf8_pos c
      rcases ih with heq | hlt
      · exact .inr (by rw [heq]; omega)
      · exact .inr (by omega)

theorem length_decodeEscapes_route (t : Text) :
    (decodeEscapes (slashes (routePrefix ++ encodeProxyPath t))).length + 1 =
      14 + (decodeEscapes t).length := by
  have hcons := decodeEscapes_slash [] (routePrefix ++ encodeProxyPath t)
  have hstarts := decodeEscapes_route_start (encodeProxyPath t)
  rw [List.nil_append, ← List.cons_append, ← proxyPrefix_eq] at hcons
  rw [hcons, encodeProxyPath_eq, decodeEscapes_percentEncode encodesInProxy_safe] at hstarts
  rw [length_decodeEscapes_slashes, encodeProxyPath_eq, ← hstarts]
  rfl

/-- No layer makes a text longer, so one that comes back was not changed at all. -/
theorem unchanged_of_recovered (h : recovered u = some u) : Unchanged u := by
  obtain ⟨target, htarget, hu⟩ := Option.map_eq_some_iff.mp h
  have hne : u.filter keepsInUrl ≠ [] := by
    intro hnil
    have hnone : routeTarget (requestPath (routePrefix ++ encodeProxyPath [])) = none := by decide
    rw [hnil, hnone] at htarget
    cases htarget
  have hproxy := length_decodeProxyPath target
  have hroute := (routeTarget_eq_some htarget).1
  have hpath := length_decodeEscapes_route (u.filter keepsInUrl)
  have hdecode := length_decodeEscapes_le (u.filter keepsInUrl)
  have hfilter := length_toUtf8_filter keepsInUrl u
  rw [hu] at hproxy
  rcases length_decode_requestPath (routePrefix ++ encodeProxyPath (u.filter keepsInUrl)) with
    hdots | hshort
  · rw [routeTarget_of_plain hne hdots] at htarget
    have hbytes := toUtf8_of_ofUtf8 htarget
    have hsize := congrArg List.length hbytes
    rw [length_decodeEscapes_slashes] at hsize
    have hkeep : u.filter keepsInUrl = u := hfilter.resolve_right (by omega)
    rw [hkeep] at hsize hdecode hdots hbytes
    have hescapes : hasEscape u = false := by
      by_contra hnot
      have := length_decodeEscapes_lt (by simpa using hnot : hasEscape u = true)
      omega
    have hslashes : hasEscape (slashes u) = false := by
      by_contra hnot
      have hlt := length_decodeEscapes_lt (by simpa using hnot : hasEscape (slashes u) = true)
      rw [← hbytes, length_toUtf8_slashes] at hlt
      omega
    rw [decodeEscapes_of_not hslashes] at hbytes
    rw [toUtf8_inj hbytes, decodeProxyPath_of_not hslashes] at hu
    refine ⟨fun c hc hmem => ?_, hescapes, (isDots_segments hescapes).mp hdots⟩
    rcases List.mem_cons.mp hmem with rfl | hmem
    · rw [← hu] at hc
      exact backslash_not_mem_slashes u hc
    · exact filter_keepsInUrl_eq_self.mp hkeep c hc hmem
  · have hsmall : (toUtf8 (u.filter keepsInUrl)).length ≤ (toUtf8 u).length := by
      rcases hfilter with heq | hlt
      · rw [heq]
      · exact hlt.le
    omega

end Recovered

/-! ## Round trips -/

section Trips

variable {mac : Bytes → Bytes → Bytes} {secrets : Text → Option Bytes}
  {signer : ProxySigner secrets} {issued now : UnixTime} {items found : List AttrItem}
  {target url : Text}

theorem quote_not_mem_rawText (items : List AttrItem) : '"' ∉ rawText items := by
  intro h
  obtain ⟨item, -, hmem⟩ := List.mem_flatMap.mp h
  cases item with
  | char c plain => exact plain.2 (List.mem_singleton.mp hmem).symm
  | ref r => cases r <;> exact absurd hmem (by decide)

/-- What the handler does with a signature that was made for a user. -/
theorem proxyTarget_signed (hnow : now.val ≤ issued.val + sigTtlSecs) :
    proxyTarget mac secrets now target
        ⟨sigExp issued, computeSig mac signer.secret signer.userId url (sigExp issued),
          signer.userId⟩ = some url ↔
      decodeProxyPath target = url ∧ isHttp url = true := by
  refine ⟨fun h => ⟨(proxyTarget_eq_some h).1, (proxyTarget_eq_some h).2.1⟩, ?_⟩
  rintro ⟨rfl, hhttp⟩
  have hexp : ¬sigExp issued < now.val := by
    unfold sigExp
    omega
  unfold proxyTarget
  simp only
  rw [hhttp, Bool.not_true, if_neg Bool.false_ne_true, signer.loaded]
  simp only
  rw [if_pos]
  unfold verifySig
  rw [if_neg hexp]
  exact beq_self_eq_true _

/-- Without groups in the source, the proxy fetches what it recovers of the meant text. -/
theorem fetchedUrl_eq_some (hfound : capturedSrc (rawText items) = rawText found)
    (hdollar : expandsDollar (rawText found) = false)
    (hnow : now.val ≤ issued.val + sigTtlSecs) :
    fetchedUrl mac secrets now (proxiedSrc mac signer issued (rawText items)) =
        some (rawText found) ↔
      recovered (meantText found) = some (rawText found) ∧ isHttp (rawText found) = true := by
  have hstarts : '&' ∉ proxyPrefix := by decide
  have hvalue : proxiedSrc mac signer issued (rawText items) =
      proxyPrefix ++ (encodeProxyPath (capturedSrc (rawText items)) ++
        '?' :: signedQuery mac signer issued (capturedSrc (rawText items))) :=
    proxiedSrc_eq (quote_not_mem_rawText items) (by rw [hfound]; exact hdollar)
  have hrefs : decodeRefs (proxiedSrc mac signer issued (rawText items)) =
      proxyPrefix ++ (encodeProxyPath (meantText found) ++
        '?' :: signedQuery mac signer issued (rawText found)) := by
    rw [hvalue, decodeRefs_of_not hstarts, hfound, decodeRefs_items, decodeRefs_query]
  have hrequest := browserRequest_eq
    (fun c hc => isQueryChar_signedQuery hc) hrefs
  unfold fetchedUrl recovered
  rw [hrequest, parseProxyQuery_signedQuery]
  simp only [Option.bind_some]
  rw [Option.bind_eq_some_iff, Option.map_eq_some_iff]
  constructor
  · rintro ⟨target, htarget, hfetch⟩
    obtain ⟨hdecode, hhttp⟩ := (proxyTarget_signed hnow).mp hfetch
    exact ⟨⟨target, htarget, hdecode⟩, hhttp⟩
  · rintro ⟨⟨target, htarget, hdecode⟩, hhttp⟩
    exact ⟨target, htarget, (proxyTarget_signed hnow).mpr ⟨hdecode, hhttp⟩⟩

theorem meantText_of_not_mem (h : '&' ∉ rawText items) : meantText items = rawText items := by
  induction items with
  | nil => rfl
  | cons item items ih =>
    have hraw : rawText (item :: items) = item.text ++ rawText items := rfl
    rw [hraw, List.mem_append, not_or] at h
    rw [hraw, ← ih h.2]
    cases item with
    | char c plain => rfl
    | ref r => cases r <;> exact absurd (by decide) h.1

/-- A reference is longer than its character. -/
theorem length_meantText_lt (h : '&' ∈ rawText items) :
    (meantText items).length < (rawText items).length := by
  have hitem : ∀ item : AttrItem, 1 ≤ item.text.length ∧ ('&' ∈ item.text → 1 < item.text.length) := by
    intro item
    cases item with
    | char c plain =>
      exact ⟨Nat.le_refl _, fun hmem => absurd (List.mem_singleton.mp hmem).symm plain.1⟩
    | ref r => cases r <;> decide
  have hle : ∀ items : List AttrItem, (meantText items).length ≤ (rawText items).length := by
    intro items
    induction items with
    | nil => exact Nat.le_refl _
    | cons item items ih =>
      have hraw : rawText (item :: items) = item.text ++ rawText items := rfl
      have := (hitem item).1
      rw [hraw, List.length_append, meantText, List.map_cons, List.length_cons]
      rw [meantText] at ih
      omega
  obtain ⟨item, hmem, hamp⟩ := List.mem_flatMap.mp h
  obtain ⟨a, b, rfl⟩ := List.append_of_mem hmem
  have ha := hle a
  have hb := hle b
  have hlong := (hitem item).2 hamp
  have hraw : rawText (a ++ item :: b) = rawText a ++ (item.text ++ rawText b) :=
    List.flatMap_append
  have hmeant : meantText (a ++ item :: b) = meantText a ++ item.meaning :: meantText b :=
    List.map_append
  rw [hraw, hmeant]
  simp only [List.length_append, List.length_cons]
  omega

variable {src : RemoteSrc}

theorem roundTrips_of_survives (h : Survives src.raw) : RoundTrips mac signer src := by
  intro issued now hnow
  have hcaptured : capturedSrc src.raw = rawText src.items :=
    List.takeWhile_eq_self_iff.mpr fun c hc => by
      have hquote : c ≠ '"' := ne_of_mem_of_not_mem hc (quote_not_mem_rawText src.items)
      have happ : c ≠ '\'' := fun heq => h.plain c hc (by simp [heq])
      simp [isQuote, hquote, happ]
  have hmeant : meantText src.items = rawText src.items :=
    meantText_of_not_mem fun hmem => h.plain _ hmem (by simp)
  have hne : rawText src.items ≠ [] := by
    intro hnil
    have hhttp := h.http
    rw [RemoteSrc.raw, hnil] at hhttp
    exact absurd hhttp (by decide)
  have hunchanged : Unchanged (rawText src.items) :=
    ⟨fun c hc hmem => h.plain c hc (List.mem_cons_of_mem _ (List.mem_cons_of_mem _ hmem)), h.escapes,
      h.dots⟩
  rw [hcaptured]
  refine ⟨(fetchedUrl_eq_some hcaptured h.dollar hnow).mpr ⟨?_, h.http⟩, hmeant.symm⟩
  rw [hmeant]
  exact recovered_of_unchanged hne hunchanged

theorem survives_of_roundTrips (hdollar : expandsDollar (capturedSrc src.raw) = false)
    (h : RoundTrips mac signer src) : Survives src.raw := by
  obtain ⟨hfetched, hurl⟩ := h 0 0 (Nat.zero_le _)
  obtain ⟨found, rest, hitems, hfound, hquote, hrest⟩ := exists_captured src.items
  rw [RemoteSrc.raw, hfound] at hfetched hurl hdollar
  -- the pattern finds the whole source
  have hnil : rest = [] := by
    refine hrest.resolve_right fun hmem => hquote ?_
    have hmeant : src.url = meantText found ++ meantText rest := by
      rw [RemoteSrc.url, hitems]
      exact List.map_append
    rw [hurl, hmeant]
    exact List.mem_append_right _ hmem
  obtain rfl : src.items = found := by rw [hitems, hnil, List.append_nil]
  obtain ⟨hrecovered, hhttp⟩ := (fetchedUrl_eq_some hfound hdollar (Nat.zero_le _)).mp hfetched
  have hmeant : meantText src.items = rawText src.items := hurl.symm
  have hamp : '&' ∉ rawText src.items := by
    intro hmem
    have hlt := length_meantText_lt hmem
    rw [hmeant] at hlt
    exact Nat.lt_irrefl _ hlt
  rw [hmeant] at hrecovered
  have hunchanged := unchanged_of_recovered hrecovered
  refine ⟨hhttp, hdollar, fun c hc hmem => ?_, hunchanged.escapes, hunchanged.dots⟩
  rcases List.mem_cons.mp hmem with rfl | hmem
  · exact hamp hc
  · rcases List.mem_cons.mp hmem with rfl | hmem
    · exact hquote hc
    · exact hunchanged.chars c hc hmem

def plainItems (text : Text) : List AttrItem :=
  text.filterMap fun c => if h : c ≠ '&' ∧ c ≠ '"' then some (.char c h) else none

/-- A query of two fields, as the sanitizer writes it. -/
def twoFields : RemoteSrc where
  items := plainItems "http://x/?a=1".toList ++ .ref .amp :: plainItems "b=2".toList
  remote := by decide

end Trips

end Lyra.Media
