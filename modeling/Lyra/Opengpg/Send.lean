import Lyra.Opengpg.Keys
import Lyra.Dav.Xml
import Lyra.Lib.Fallible

/-!
# Signing and encrypting outbound mail

`opengpg/send.rs`: the recipients' keys are chosen from the user's keyring, and the bodies are
wrapped in up to four layers of MIME text, each around the last.  The OpenPGP library, the
boundaries and `to_lowercase` are parameters.

* `resolveRecipientPublicKeys_ok`: where the keys resolve, every address has one, which names it.
-/

namespace Lyra.Opengpg

open Lyra.Lib

/-! ## Addresses -/

/-- An entry of a recipient list in the request, as far as it is read. -/
inductive AddressValue
  | string (s : Text)
  | object (email name : Option Text)
  | other
  deriving DecidableEq, Repr

/-- What stands between the first `<` and the last `>`. -/
def angled (uid : Text) : Option Text :=
  let rest := (uid.dropWhile (· != '<')).drop 1
  if rest.contains '>' then some ((rest.reverse.dropWhile (· != '>')).drop 1).reverse else none

/-- `extract_email`. -/
def extractEmail (uid : Text) : Option Text :=
  let uid := trimText uid
  if uid.contains '<' then
    if uid.contains '>' then
      match (angled uid).map trimText with
      | some email => if email.contains '@' then some email else plain uid
      | none => plain uid
    else none
  else plain uid
where
  plain (uid : Text) : Option Text :=
    if uid.contains '@' && !uid.contains ' ' then some uid else none

/-- The address an entry is encrypted for. -/
def AddressValue.email : AddressValue → Option Text
  | .string s => some ((extractEmail s).getD s)
  | .object email _ => email
  | .other => none

section Recipients

variable (toLowercase : Text → Text)

/-- `collect_recipient_emails`. -/
def collectRecipientEmails : List AddressValue → List Text → List Text
  | [], out => out
  | v :: rest, out =>
    match v.email with
    | none => collectRecipientEmails rest out
    | some e =>
      let lower := toLowercase e
      collectRecipientEmails rest
        (if lower.contains '@' && !out.contains lower then out ++ [lower] else out)

/-- The form in which an address is looked up. -/
def lookupForm (email : Text) : Text := toLowercase (trimText email)

/-- The key is not revoked and names the address. -/
def StoredKey.names (k : StoredKey) (lower : Text) : Bool :=
  !k.revoked && k.emails.any (eqIgnoreAsciiCase · lower)

def noKey (lower : Text) : OpengpgError :=
  .invalidInput ("no public key for recipient " ++ String.ofList lower ++ "; import their key first")

def ambiguousKeys (lower : Text) : OpengpgError :=
  .invalidInput ("ambiguous keys for " ++ String.ofList lower ++ "; specify recipientKeyIds")

def unknownKey (lower : Text) : OpengpgError :=
  .invalidInput ("unknown key id for " ++ String.ofList lower)

/-- The key an address is encrypted to. -/
def chooseKey (keys : List StoredKey) (picks : Text → Option Text) (lower : Text) :
    Except OpengpgError StoredKey :=
  match keys.filter (·.names lower) with
  | [] => .error (noKey lower)
  | [k] => .ok k
  | found =>
    match picks lower with
    | none => .error (ambiguousKeys lower)
    | some pick =>
      match found.find? (·.id == pick) with
      | none => .error (unknownKey lower)
      | some k => .ok k

end Recipients

/-! ## Layers -/

structure OpengpgSendOptions where
  sign : Bool := false
  encrypt : Bool := false
  attachPublicKey : Bool := false
  signingKeyId : Option Text := none
  recipientKeyIds : Text → Option Text := fun _ => none

/-- The text that replaces the body, and its type. -/
structure OpengpgMimeBody where
  contentType : Text
  body : Text
  deriving DecidableEq, Repr

inductive WrapError
  | opengpg (e : OpengpgError)
  | invalidKey
  deriving DecidableEq, Repr

/-- The OpenPGP library, with the random numbers of one request; `κ` are the public keys. -/
structure Pgp (κ : Type) where
  /-- `public_armored_from_stored`. -/
  publicArmored : Text → Option Text
  /-- `SignedPublicKey::from_string`. -/
  readPublic : Text → Option κ
  hasSubkey : κ → Bool
  /-- A detached signature, from the armored key, its passphrase and the data. -/
  sign : Text → Text → Text → Option Text
  encrypt : List κ → Text → Option Text

/-- The boundaries of a request. -/
structure Boundaries where
  inner : Text
  signed : Text
  encrypted : Text
  attached : Text
  deriving DecidableEq, Repr

/-- `replace("\\r\\n", "\\n")`. -/
def unixLines : Text → Text
  | '\r' :: '\n' :: s => '\n' :: unixLines s
  | c :: s => c :: unixLines s
  | [] => []

/-- With CRLF at the end of every line. -/
def crlfLines (s : Text) : Text :=
  (unixLines s).flatMap fun c => if c = '\n' then ['\r', '\n'] else [c]

def crlf : Text := ['\r', '\n']

def line (s : Text) : Text := s ++ crlf

/-- A delimiter line. -/
def delimiter (boundary : Text) : Text := line ("--".toList ++ boundary)

def closeDelimiter (boundary : Text) : Text := line ("--".toList ++ boundary ++ "--".toList)

def preamble : Text := line "This is a multi-part message in MIME format.".toList ++ crlf

/-- The header with the content type, and the empty line. -/
def typeHeader (contentType : Text) : Text := line ("Content-Type: ".toList ++ contentType) ++ crlf

def plainType : Text := "text/plain; charset=utf-8".toList

def htmlType : Text := "text/html; charset=utf-8".toList

def eightBit : Text := line "Content-Transfer-Encoding: 8bit".toList

def multipartType (subtype boundary : Text) : Text :=
  "multipart/".toList ++ subtype ++ "; boundary=\"".toList ++ boundary ++ "\"".toList

def buildInnerBody (b : Boundaries) (bodyText bodyHtml : Option Text) : OpengpgMimeBody :=
  let text := crlfLines (bodyText.getD [])
  match bodyHtml.filter (!·.isEmpty) with
  | some html =>
    { contentType := multipartType "alternative".toList b.inner
      body := preamble ++
        delimiter b.inner ++ line ("Content-Type: ".toList ++ plainType) ++ eightBit ++ crlf ++
        line text ++
        delimiter b.inner ++ line ("Content-Type: ".toList ++ htmlType) ++ eightBit ++ crlf ++
        line (crlfLines html) ++ closeDelimiter b.inner }
  | none => { contentType := plainType, body := text }

/-- The two parts of a wrapper: the payload as it is, and another one. -/
def wrapParts (boundary : Text) (payload : OpengpgMimeBody) (second : Text) : Text :=
  preamble ++ delimiter boundary ++ typeHeader payload.contentType ++ payload.body ++
    delimiter boundary ++ second ++ closeDelimiter boundary

def signedSubtype : Text :=
  "signed; protocol=\"application/pgp-signature\"; micalg=pgp-sha256".toList

def signaturePart (armored : Text) : Text :=
  typeHeader "application/pgp-signature".toList ++ line armored

section Wrap

variable {κ : Type} (lib : Pgp κ) (b : Boundaries)

def wrapSigned (payload : OpengpgMimeBody) (secretArmor password : Text) :
    Except WrapError OpengpgMimeBody :=
  match lib.sign secretArmor password payload.body with
  | none => .error .invalidKey
  | some armored =>
    .ok
      { contentType := multipartType signedSubtype b.signed
        body := wrapParts b.signed payload (signaturePart armored) }

def encryptedSubtype : Text := "encrypted; protocol=\"application/pgp-encrypted\"".toList

/-- The text of an encrypted message around the ciphertext. -/
def encryptedBody (boundary ciphertext : Text) : Text :=
  preamble ++ delimiter boundary ++ typeHeader "application/pgp-encrypted".toList ++
    line "Version: 1".toList ++ crlf ++ delimiter boundary ++
    typeHeader "application/octet-stream".toList ++ line ciphertext ++ closeDelimiter boundary

def noSubkey : OpengpgError := .invalidInput "no encryption subkey for recipient public key"

def wrapEncrypted (payload : OpengpgMimeBody) (recipients : List κ) :
    Except WrapError OpengpgMimeBody :=
  if recipients.isEmpty then
    .error (.opengpg (.invalidInput "encrypt requires at least one recipient public key"))
  else if !recipients.all lib.hasSubkey then .error (.opengpg noSubkey)
  else
    match lib.encrypt recipients payload.body with
    | none => .error .invalidKey
    | some ciphertext =>
      .ok
        { contentType := multipartType encryptedSubtype b.encrypted
          body := encryptedBody b.encrypted ciphertext }

def keyPart (armor : Text) : Text :=
  line "Content-Type: application/pgp-keys; name=\"public-key.asc\"".toList ++
    line "Content-Disposition: attachment; filename=\"public-key.asc\"".toList ++ crlf ++ line armor

def attachPublicKeyPart (payload : OpengpgMimeBody) (pubArmor : Text) : OpengpgMimeBody :=
  { contentType := multipartType "mixed".toList b.attached
    body := wrapParts b.attached payload (keyPart pubArmor) }

/-- The signing identity of the sending account. -/
def resolveSigningKey (keys : List StoredKey) (opts : OpengpgSendOptions) (account : Text) :
    Except OpengpgError StoredKey :=
  match opts.signingKeyId with
  | some id =>
    match keys.find? fun k => k.id == id && k.isSecret && k.accountId == some account with
    | some k => .ok k
    | none =>
      .error (.invalidInput "signingKeyId must be a secret key bound to the sending account")
  | none =>
    match keys.find? fun k =>
      k.isSecret && k.isPrimary && !k.revoked && k.accountId == some account with
    | some k => .ok k
    | none =>
      .error (.invalidInput "this account has no OpenGPG key; add one in Settings → Encryption")

variable (toLowercase : Text → Text)

/-- The keys the addresses are encrypted to, in their order. -/
def chooseKeys (keys : List StoredKey) (picks : Text → Option Text) :
    List Text → Except OpengpgError (List StoredKey)
  | [] => .ok []
  | email :: rest => do
    let lower := lookupForm toLowercase email
    if !lower.contains '@' then chooseKeys keys picks rest
    else
      let k ← chooseKey keys picks lower
      return k :: (← chooseKeys keys picks rest)

/-- The public key in a stored one. -/
def readStored (k : StoredKey) : Except WrapError κ :=
  match (lib.publicArmored k.keyData).bind lib.readPublic with
  | some pk => .ok pk
  | none => .error .invalidKey

/-- `resolve_recipient_public_keys`; it reads every key as it is chosen. -/
def resolveRecipientPublicKeys (keys : List StoredKey) (picks : Text → Option Text) :
    List Text → Except WrapError (List κ)
  | [] => .ok []
  | email :: rest => do
    let lower := lookupForm toLowercase email
    if !lower.contains '@' then resolveRecipientPublicKeys keys picks rest
    else
      match chooseKey keys picks lower with
      | .error e => throw (.opengpg e)
      | .ok k =>
        let pk ← readStored lib k
        return pk :: (← resolveRecipientPublicKeys keys picks rest)

/-- The bodies of a draft and whom it is encrypted for. -/
structure OutboundDraft where
  bodyText : Option Text
  bodyHtml : Option Text
  recipientEmails : List Text
  deriving DecidableEq, Repr

/-- What a request finds: the user's keys and the passphrases of the session. -/
structure Keyring where
  /-- `list_keys`. -/
  keys : Except OpengpgError (List StoredKey)
  unlocked : Text → Option Text

def locked : OpengpgError :=
  .invalidInput "signing key is locked; unlock in Settings or reading pane"

/-- The key that signs or is attached, if one is needed. -/
def signingKey (keys : List StoredKey) (opts : OpengpgSendOptions) (account : Text) :
    Except WrapError (Option StoredKey) :=
  if opts.sign || opts.attachPublicKey then
    match resolveSigningKey keys opts account with
    | .ok k => .ok (some k)
    | .error e => .error (.opengpg e)
  else .ok none

def signStep (unlocked : Text → Option Text) (opts : OpengpgSendOptions)
    (signing : Option StoredKey) (payload : OpengpgMimeBody) : Except WrapError OpengpgMimeBody :=
  match signing with
  | some stored =>
    if opts.sign then
      match unlocked stored.id with
      | none => .error (.opengpg locked)
      | some password => wrapSigned lib b payload stored.keyData password
    else .ok payload
  | none => .ok payload

def encryptStep (keys : List StoredKey) (opts : OpengpgSendOptions) (recipients : List Text)
    (payload : OpengpgMimeBody) : Except WrapError OpengpgMimeBody :=
  if opts.encrypt then
    match resolveRecipientPublicKeys lib toLowercase keys opts.recipientKeyIds recipients with
    | .error e => .error e
    | .ok pubKeys => wrapEncrypted lib b payload pubKeys
  else .ok payload

def attachStep (opts : OpengpgSendOptions) (signing : Option StoredKey)
    (payload : OpengpgMimeBody) : Except WrapError OpengpgMimeBody :=
  match signing with
  | some stored =>
    if opts.attachPublicKey then
      match lib.publicArmored stored.keyData with
      | none => .error .invalidKey
      | some armor => .ok (attachPublicKeyPart b payload armor)
    else .ok payload
  | none => .ok payload

/-- The layers of a draft, each around the last. -/
def wrapLayers (unlocked : Text → Option Text) (keys : List StoredKey)
    (signing : Option StoredKey) (opts : OpengpgSendOptions) (draft : OutboundDraft) :
    Except WrapError OpengpgMimeBody := do
  let signed ←
    signStep lib b unlocked opts signing (buildInnerBody b draft.bodyText draft.bodyHtml)
  let encrypted ← encryptStep lib b toLowercase keys opts draft.recipientEmails signed
  attachStep lib b opts signing encrypted

/-- `wrap_outbound_opengpg`. -/
def wrapOutboundOpengpg (ring : Keyring) (account : Text) (opts : OpengpgSendOptions)
    (draft : OutboundDraft) : Except WrapError (Option OpengpgMimeBody) :=
  if !opts.sign && !opts.encrypt && !opts.attachPublicKey then .ok none
  else if opts.encrypt && draft.recipientEmails.isEmpty then
    .error (.opengpg (.invalidInput "encrypt requires at least one recipient"))
  else
    match ring.keys with
    | .error e => .error (.opengpg e)
    | .ok keys =>
      match signingKey keys opts account with
      | .error e => .error e
      | .ok signing =>
        match wrapLayers lib b toLowercase ring.unlocked keys signing opts draft with
        | .error e => .error e
        | .ok x => .ok (some x)

end Wrap

/-! ## The steps of a wrapper -/

section Steps

variable {κ : Type} {lib : Pgp κ} {b : Boundaries} {toLowercase : Text → Text}
  {unlocked : Text → Option Text} {keys : List StoredKey} {signing : Option StoredKey}
  {ring : Keyring} {account : Text} {opts : OpengpgSendOptions} {draft : OutboundDraft}
  {x : OpengpgMimeBody}

theorem wrapLayers_eq_ok :
    wrapLayers lib b toLowercase unlocked keys signing opts draft = .ok x ↔
      ∃ s e, signStep lib b unlocked opts signing
          (buildInnerBody b draft.bodyText draft.bodyHtml) = .ok s ∧
        encryptStep lib b toLowercase keys opts draft.recipientEmails s = .ok e ∧
        attachStep lib b opts signing e = .ok x := by
  unfold wrapLayers
  rw [bind_eq_ok]
  constructor
  · rintro ⟨s, hs, h⟩
    obtain ⟨e, he, hx⟩ := bind_eq_ok.mp h
    exact ⟨s, e, hs, he, hx⟩
  · rintro ⟨s, e, hs, he, hx⟩
    exact ⟨s, hs, bind_eq_ok.mpr ⟨e, he, hx⟩⟩

theorem wrapOutbound_eq_some :
    wrapOutboundOpengpg lib b toLowercase ring account opts draft = .ok (some x) ↔
      (!opts.sign && !opts.encrypt && !opts.attachPublicKey) = false ∧
      (opts.encrypt && draft.recipientEmails.isEmpty) = false ∧
      ∃ keys signing, ring.keys = .ok keys ∧ signingKey keys opts account = .ok signing ∧
        wrapLayers lib b toLowercase ring.unlocked keys signing opts draft = .ok x := by
  unfold wrapOutboundOpengpg
  cases hany : (!opts.sign && !opts.encrypt && !opts.attachPublicKey) with
  | true => simp
  | false =>
    cases hempty : (opts.encrypt && draft.recipientEmails.isEmpty) with
    | true => simp
    | false =>
      cases hkeys : ring.keys with
      | error e => simp
      | ok keys =>
        cases hsigning : signingKey keys opts account with
        | error e => simp [hsigning]
        | ok signing =>
          cases hlayers : wrapLayers lib b toLowercase ring.unlocked keys signing opts draft with
          | error e => simp [hsigning, hlayers]
          | ok y => simp [hsigning, hlayers]

/-- With `encrypt` there is a wrapper, if the request is not refused. -/
theorem wrapOutbound_encrypt (hencrypt : opts.encrypt = true) {y : Option OpengpgMimeBody}
    (h : wrapOutboundOpengpg lib b toLowercase ring account opts draft = .ok y) :
    ∃ x, y = some x := by
  cases y with
  | some x => exact ⟨x, rfl⟩
  | none =>
    unfold wrapOutboundOpengpg at h
    simp only [hencrypt, Bool.not_true, Bool.and_false, Bool.false_and] at h
    split at h
    · contradiction
    · split at h
      · cases h
      · split at h
        · cases h
        · split at h
          · cases h
          · split at h
            · cases h
            · cases h

end Steps

/-! ## The chosen keys -/

section Chosen

variable {κ : Type} {lib : Pgp κ} {toLowercase : Text → Text} {keys chosen : List StoredKey}
  {picks : Text → Option Text} {lower : Text} {k : StoredKey}

theorem chooseKey_ok (h : chooseKey keys picks lower = .ok k) :
    k ∈ keys ∧ k.names lower = true ∧
      ((∀ k' ∈ keys, k'.names lower = true → k' = k) ∨ picks lower = some k.id) := by
  unfold chooseKey at h
  split at h
  · cases h
  · rename_i k' hfound
    obtain rfl := Except.ok.inj h
    have hmem : k' ∈ keys.filter (·.names lower) := by
      rw [hfound]
      exact List.mem_singleton_self k'
    obtain ⟨hkeys, hnames⟩ := List.mem_filter.mp hmem
    refine ⟨hkeys, hnames, .inl fun k'' hkeys'' hnames'' => ?_⟩
    have hmem'' : k'' ∈ keys.filter (·.names lower) := List.mem_filter.mpr ⟨hkeys'', hnames''⟩
    rw [hfound] at hmem''
    exact List.mem_singleton.mp hmem''
  · split at h
    · cases h
    · rename_i pick hpick
      split at h
      · cases h
      · rename_i k' hfind
        obtain rfl := Except.ok.inj h
        obtain ⟨hkeys, hnames⟩ := List.mem_filter.mp (List.mem_of_find?_eq_some hfind)
        have hbeq := List.find?_some hfind
        have hid : k'.id = pick := beq_iff_eq.mp hbeq
        exact ⟨hkeys, hnames, .inr (hid ▸ hpick)⟩

/-- The addresses that are encrypted for: those with an `@`. -/
def lookupForms (toLowercase : Text → Text) (emails : List Text) : List Text :=
  (emails.map (lookupForm toLowercase)).filter (·.contains '@')

theorem lookupForms_cons {email : Text} {rest : List Text} :
    lookupForms toLowercase (email :: rest) =
      if (lookupForm toLowercase email).contains '@' then
        lookupForm toLowercase email :: lookupForms toLowercase rest
      else lookupForms toLowercase rest := by
  unfold lookupForms
  rw [List.map_cons, List.filter_cons]

/-- Every address has its key, and there are no others. -/
theorem chooseKeys_ok {emails : List Text}
    (h : chooseKeys toLowercase keys picks emails = .ok chosen) :
    List.Forall₂ (fun lower k => chooseKey keys picks lower = .ok k)
      (lookupForms toLowercase emails) chosen := by
  induction emails generalizing chosen with
  | nil =>
    obtain rfl := Except.ok.inj h
    exact .nil
  | cons email rest ih =>
    rw [chooseKeys] at h
    rw [lookupForms_cons]
    cases hat : (lookupForm toLowercase email).contains '@' with
    | false =>
      rw [hat] at h
      exact ih h
    | true =>
      rw [hat] at h
      cases hk : chooseKey keys picks (lookupForm toLowercase email) with
      | error e =>
        rw [hk] at h
        cases h
      | ok k =>
        rw [hk] at h
        cases hrest : chooseKeys toLowercase keys picks rest with
        | error e =>
          rw [hrest] at h
          cases h
        | ok ks =>
          rw [hrest] at h
          obtain rfl := Except.ok.inj h
          exact .cons hk (ih hrest)

theorem resolveRecipientPublicKeys_ok {emails : List Text} {pks : List κ}
    (h : resolveRecipientPublicKeys lib toLowercase keys picks emails = .ok pks) :
    ∃ chosen, chooseKeys toLowercase keys picks emails = .ok chosen ∧
      List.Forall₂ (fun k pk => readStored lib k = .ok pk) chosen pks := by
  induction emails generalizing pks with
  | nil =>
    obtain rfl := Except.ok.inj h
    exact ⟨[], rfl, .nil⟩
  | cons email rest ih =>
    rw [resolveRecipientPublicKeys] at h
    rw [chooseKeys]
    cases hat : (lookupForm toLowercase email).contains '@' with
    | false =>
      rw [hat] at h
      exact ih h
    | true =>
      rw [hat] at h
      cases hk : chooseKey keys picks (lookupForm toLowercase email) with
      | error e =>
        rw [hk] at h
        cases h
      | ok k =>
        rw [hk] at h
        cases hpk : readStored lib k with
        | error e =>
          simp only [hpk] at h
          cases h
        | ok pk =>
          cases hrest : resolveRecipientPublicKeys lib toLowercase keys picks rest with
          | error e =>
            simp only [hpk, hrest] at h
            cases h
          | ok pks' =>
            simp only [hpk, hrest] at h
            obtain rfl := Except.ok.inj h
            obtain ⟨chosen, hchosen, hread⟩ := ih hrest
            refine ⟨k :: chosen, ?_, .cons hpk hread⟩
            rw [hchosen]
            rfl

end Chosen

end Lyra.Opengpg
