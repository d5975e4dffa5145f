import Lyra.Opengpg.Send

/-!
# What an encrypted message shows

`send_message` of `sync/send.rs` and `build_message` of `smtp.rs`: the wrapper takes the place of
the body, and the attachments are put beside it.  The address parser, the library and the
account's connection are parameters; a message is what `lettre` is told to put together.

* `encryption_covers_iff`: an accepted request with `encrypt` shows nothing of its content but
  the ciphertext, and has one key for every recipient, where it goes by JMAP, or no attachment has
  bytes and the taken keys name every recipient once, and only there;
* `attachment_shown`: an attachment that stands beside the wrapper;
* `reached_of_plain`: recipients that are plain addresses are all named.
-/

namespace Lyra.Opengpg

open Lyra.Lib

/-! ## Messages -/

structure OutboundAttachment where
  filename : Text
  contentType : Text
  data : List UInt8
  contentId : Option Text
  deriving DecidableEq, Repr

structure OutboundMessage where
  fromEmail : Text
  recipients : List (Option Text × Text)
  cc : List (Option Text × Text)
  bcc : List (Option Text × Text)
  subject : Text
  bodyText : Option Text
  bodyHtml : Option Text
  inReplyTo : Option Text
  references : Option Text
  mimeContentType : Option Text
  mimeBody : Option Text
  attachments : List OutboundAttachment
  deriving DecidableEq, Repr

inductive MimePart
  | single (contentType body : Text)
  | attachment (filename contentType : Text) (data : List UInt8)
  | inlined (contentId filename contentType : Text) (data : List UInt8)
  | multi (subtype : Text) (parts : List MimePart)
  /-- A message that is uploaded as it is. -/
  | raw (message : Text)

/-- What leaves the server: to whom, the headers that are shown, and the content. -/
structure Transmission where
  envelope : List Text
  fromEmail : Text
  recipients : List (Option Text × Text)
  cc : List (Option Text × Text)
  subject : Text
  inReplyTo : Option Text
  references : Option Text
  content : MimePart

inductive SendFailure
  | accountNotFound
  | accountDisabled
  | invalidInput (text : String)
  | crypto
  | protocol (text : String)
  deriving DecidableEq, Repr

/-- `ContentType::parse` and the parser of addresses. -/
structure Mailer where
  parseAddress : Text → Bool
  parseContentType : Text → Option Text

def octetStream : Text := "application/octet-stream".toList

/-- Printable ASCII but for angle brackets. -/
def validContentId (cid : Text) : Bool :=
  !cid.isEmpty && cid.all fun c => '!' ≤ c && c ≤ '~' && c != '<' && c != '>'

section Build

variable (m : Mailer)

def attachmentType (att : OutboundAttachment) : Text :=
  (m.parseContentType att.contentType).getD octetStream

def attachmentPart (att : OutboundAttachment) : MimePart :=
  .attachment att.filename (attachmentType m att) att.data

def inlinePart (att : OutboundAttachment) : Except SendFailure MimePart :=
  match att.contentId with
  | none => .error (.protocol "missing content_id")
  | some cid =>
    if validContentId cid then .ok (.inlined cid att.filename (attachmentType m att) att.data)
    else .error (.protocol "invalid content-id")

def inlineParts : List OutboundAttachment → Except SendFailure (List MimePart)
  | [] => .ok []
  | att :: rest => do return (← inlinePart m att) :: (← inlineParts rest)

def buildBodyPart (msg : OutboundMessage) : Except SendFailure MimePart :=
  match msg.mimeContentType, msg.mimeBody with
  | some ct, some body =>
    match m.parseContentType ct with
    | some ct => .ok (.single ct body)
    | none => .error (.protocol "invalid Content-Type")
  | _, _ =>
    .ok (match msg.bodyText, msg.bodyHtml with
      | some text, some html =>
        .multi "alternative".toList [.single plainType text, .single htmlType html]
      | some text, none => .single plainType text
      | none, some html => .single htmlType html
      | none, none => .single plainType [])

/-- The content: the body with its inline parts, then the other attachments beside it. -/
def buildContent (msg : OutboundMessage) : Except SendFailure MimePart := do
  let body ← buildBodyPart m msg
  -- With a wrapper as the body, inline parts are attachments like the others.
  let (inlined, regular) :=
    msg.attachments.partition fun a => msg.mimeBody.isNone && a.contentId.isSome
  let parts ← inlineParts m inlined
  let level := if inlined.isEmpty then body else .multi "related".toList (body :: parts)
  return if regular.isEmpty then level
    else .multi "mixed".toList (level :: regular.map (attachmentPart m))

def OutboundMessage.addresses (msg : OutboundMessage) : List Text :=
  (msg.recipients ++ msg.cc ++ msg.bcc).map (·.2)

/-- `build_message`. -/
def buildMessage (msg : OutboundMessage) : Except SendFailure Transmission :=
  if !(msg.fromEmail :: msg.addresses).all m.parseAddress then .error (.protocol "invalid address")
  else
    match buildContent m msg with
    | .error e => .error e
    | .ok content =>
      .ok
        { envelope := if msg.addresses.isEmpty then [msg.fromEmail] else msg.addresses
          fromEmail := msg.fromEmail
          recipients := msg.recipients
          cc := msg.cc
          subject := msg.subject
          inReplyTo := msg.inReplyTo
          references := msg.references
          content := content }

end Build

/-! ## Requests -/

structure SendMessageRequest where
  accountId : Text
  recipients : List AddressValue
  cc : List AddressValue
  bcc : List AddressValue
  subject : Text
  bodyText : Option Text
  bodyHtml : Option Text
  inReplyTo : Option Text
  references : Option Text
  opengpg : Option OpengpgSendOptions
  files : List OutboundAttachment

inductive SendProtocol
  | smtp
  | jmap
  | other
  deriving DecidableEq, Repr

/-- What is read of the sending account. -/
structure SendingAccount where
  isActive : Bool
  sendProtocol : SendProtocol
  emailAddress : Text
  deriving DecidableEq, Repr

/-- What a request finds. -/
structure SendWorld (κ : Type) where
  lib : Pgp κ
  boundaries : Boundaries
  toLowercase : Text → Text
  ring : Keyring
  mailer : Mailer
  account : Option SendingAccount
  /-- The connection of the account, and its password. -/
  connect : Except SendFailure Unit
  /-- A message that has no wrapper, by JMAP. -/
  submitPlain : OutboundMessage → Except SendFailure Transmission

/-- The name and the address of an entry, as the message is sent to them. -/
def AddressValue.mailbox : AddressValue → Option (Option Text × Text)
  | .string s => some (none, s)
  | .object (some email) name => some (name, email)
  | .object none _ => none
  | .other => none

/-- `parse_address_list`. -/
def parseAddressList (values : List AddressValue) : List (Option Text × Text) :=
  values.filterMap AddressValue.mailbox

/-- `opengpg_recipient_emails`. -/
def opengpgRecipientEmails (toLowercase : Text → Text) (r : SendMessageRequest) : List Text :=
  collectRecipientEmails toLowercase r.recipients [] ++
    collectRecipientEmails toLowercase r.cc [] ++ collectRecipientEmails toLowercase r.bcc []

section Send

variable {κ : Type} (w : SendWorld κ)

def mapOpengpgSendError : WrapError → SendFailure
  | .opengpg (.invalidInput text) => .invalidInput text
  | .opengpg .notFound => .invalidInput "OpenGPG key not found"
  | .opengpg .database => .crypto
  | .opengpg (.conflict _) => .crypto
  | .invalidKey => .crypto

/-- `wrap_outbound_opengpg` on the request. -/
def wrapRequest (r : SendMessageRequest) : Except SendFailure (Option OpengpgMimeBody) :=
  match r.opengpg with
  | none => .ok none
  | some opts =>
    match wrapOutboundOpengpg w.lib w.boundaries w.toLowercase w.ring r.accountId opts
      ⟨r.bodyText, r.bodyHtml, opengpgRecipientEmails w.toLowercase r⟩ with
    | .error e => .error (mapOpengpgSendError e)
    | .ok wrapped => .ok wrapped

/-- The message, but for the attachments. -/
def outboundMessage (r : SendMessageRequest) (acc : SendingAccount)
    (wrapped : Option OpengpgMimeBody) : OutboundMessage where
  fromEmail := acc.emailAddress
  recipients := parseAddressList r.recipients
  cc := parseAddressList r.cc
  bcc := parseAddressList r.bcc
  subject := r.subject
  bodyText := if wrapped.isSome then none else r.bodyText
  bodyHtml := if wrapped.isSome then none else r.bodyHtml
  inReplyTo := r.inReplyTo
  references := r.references
  mimeContentType := wrapped.map (·.contentType)
  mimeBody := wrapped.map (·.body)
  attachments := []

/-- `send_message` up to the plugin. -/
def prepare (r : SendMessageRequest) : Except SendFailure (SendProtocol × OutboundMessage) :=
  match w.account with
  | none => .error .accountNotFound
  | some acc =>
    if !acc.isActive then .error .accountDisabled
    else if acc.sendProtocol = .other then .error (.invalidInput "unknown send protocol")
    else if (parseAddressList r.recipients).isEmpty then
      .error (.invalidInput "No recipients specified")
    else
      match wrapRequest w r with
      | .error e => .error e
      | .ok wrapped => .ok (acc.sendProtocol, outboundMessage r acc wrapped)

/-- The wrapper as it is uploaded: without headers, and it names no recipient. -/
def uploaded (body : Text) : Transmission := ⟨[], [], [], [], [], none, none, .raw body⟩

/-- The account's send plugin. -/
def deliver (protocol : SendProtocol) (msg : OutboundMessage) : Except SendFailure Transmission :=
  match w.connect with
  | .error e => .error e
  | .ok _ =>
    match protocol with
    | .smtp => buildMessage w.mailer msg
    | .jmap =>
      match msg.mimeBody with
      | some body => .ok (uploaded body)
      | none => w.submitPlain msg
    | .other => .error (.protocol "no plugin")

/-- `send_message`: what is transmitted, or an error with nothing transmitted. -/
def sendMessage (r : SendMessageRequest) : Except SendFailure Transmission :=
  match prepare w r with
  | .error e => .error e
  | .ok (protocol, msg) => deliver w protocol { msg with attachments := r.files }

end Send

/-! ## What is to be shown -/

section Covers

variable {κ : Type} (w : SendWorld κ)

/-- With ciphertexts that tell nothing of what they encrypt. -/
def Pgp.masked (lib : Pgp κ) (e : List κ → Option Text) : Pgp κ :=
  { lib with encrypt := fun keys _ => e keys }

def SendWorld.masked (e : List κ → Option Text) : SendWorld κ := { w with lib := w.lib.masked e }

/-- The requests differ at most in the bytes of the bodies and of the attachments. -/
structure SameShape (r r' : SendMessageRequest) : Prop where
  rest : r' = { r with bodyText := r'.bodyText, bodyHtml := r'.bodyHtml, files := r'.files }
  text : r'.bodyText.map List.length = r.bodyText.map List.length
  html : r'.bodyHtml.map List.length = r.bodyHtml.map List.length
  files : List.Forall₂ (fun a a' => a' = { a with data := a'.data } ∧
    a'.data.length = a.data.length) r.files r'.files

/-- Where the ciphertext tells nothing, neither does the message. -/
def Hidden (r : SendMessageRequest) : Prop :=
  ∀ e r', SameShape r r' → ∀ t t', sendMessage (w.masked e) r = .ok t →
    sendMessage (w.masked e) r' = .ok t' → t = t'

/-- The form in which an address of the message is looked up. -/
def addressForm (toLowercase : Text → Text) (s : Text) : Text :=
  lookupForm toLowercase (toLowercase s)

/-- Of the keys the message is encrypted to, one names each recipient. -/
def Keyed (r : SendMessageRequest) (t : Transmission) : Prop :=
  ∃ keys opts chosen pks, w.ring.keys = .ok keys ∧ r.opengpg = some opts ∧
    chooseKeys w.toLowercase keys opts.recipientKeyIds
      (opengpgRecipientEmails w.toLowercase r) = .ok chosen ∧
    List.Forall₂ (fun k pk => readStored w.lib k = .ok pk) chosen pks ∧
    (∃ payload, w.lib.encrypt pks payload ≠ none) ∧
    ∀ s ∈ t.envelope, ∃! k, k ∈ chosen ∧ k.names (addressForm w.toLowercase s) = true

structure Covers (r : SendMessageRequest) (t : Transmission) : Prop where
  hidden : Hidden w r
  keyed : Keyed w r t

/-- The only key that names the address, or the one that is picked for it. -/
def TakenFor (keys : List StoredKey) (picks : Text → Option Text) (lower : Text)
    (k : StoredKey) : Prop :=
  keys.filter (·.names lower) = [k] ∨
    (2 ≤ (keys.filter (·.names lower)).length ∧ ∃ pick ∈ picks lower,
      (keys.filter (·.names lower)).find? (·.id == pick) = some k)

/-- The forms of the addresses the message goes to. -/
def sentForms (r : SendMessageRequest) : List Text :=
  (parseAddressList (r.recipients ++ r.cc ++ r.bcc)).map fun a => addressForm w.toLowercase a.2

/-- Every address of `sent` is named by a key that is taken for one of `forms`. -/
def Reached (keys : List StoredKey) (picks : Text → Option Text) (forms sent : List Text) : Prop :=
  ∀ a ∈ sent, ∃ b ∈ forms, ∃ k, TakenFor keys picks b k ∧ k.names a = true

/-- No address of `sent` is named by two keys that are taken for `forms`. -/
def Uncrossed (keys : List StoredKey) (picks : Text → Option Text) (forms sent : List Text) :
    Prop :=
  ∀ a ∈ sent, ∀ b ∈ forms, ∀ b' ∈ forms, ∀ k k', TakenFor keys picks b k →
    TakenFor keys picks b' k' → k.names a = true → k'.names a = true → k' = k

/-- The request goes by JMAP; or no attachment has bytes, and among the keys that are taken
every address finds one that names it, and no second one. -/
def Contained (r : SendMessageRequest) : Prop :=
  (∃ acc ∈ w.account, acc.sendProtocol = .jmap) ∨
    (∀ a ∈ r.files, a.data = []) ∧
      ∀ keys opts, w.ring.keys = .ok keys → r.opengpg = some opts →
        Reached keys opts.recipientKeyIds
            (lookupForms w.toLowercase (opengpgRecipientEmails w.toLowercase r)) (sentForms w r) ∧
          Uncrossed keys opts.recipientKeyIds
            (lookupForms w.toLowercase (opengpgRecipientEmails w.toLowercase r)) (sentForms w r)

/-- What an entry is encrypted for is the address it is sent to, which has an `@`. -/
def PlainEntries (r : SendMessageRequest) : Prop :=
  ∀ v ∈ r.recipients ++ r.cc ++ r.bcc, ∀ name s, v.mailbox = some (name, s) →
    ∃ e, v.email = some e ∧ (w.toLowercase e).contains '@' = true ∧
      addressForm w.toLowercase e = addressForm w.toLowercase s ∧
      (addressForm w.toLowercase s).contains '@' = true

end Covers

/-! ## The wrapper -/

section Wrapper

variable {κ : Type} {lib : Pgp κ} {b : Boundaries} {toLowercase : Text → Text} {ring : Keyring}
  {keys : List StoredKey} {account : Text} {opts : OpengpgSendOptions} {emails : List Text}
  {e : List κ → Option Text} {s s' x x' : OpengpgMimeBody}

theorem resolve_masked : resolveRecipientPublicKeys (lib.masked e) toLowercase keys
    opts.recipientKeyIds emails =
      resolveRecipientPublicKeys lib toLowercase keys opts.recipientKeyIds emails := by
  induction emails with
  | nil => rfl
  | cons email rest ih =>
    rw [resolveRecipientPublicKeys, resolveRecipientPublicKeys, ih]
    rfl

/-- A ciphertext is all there is of the payload. -/
theorem wrapEncrypted_eq_ok {pks : List κ} :
    wrapEncrypted lib b s pks = .ok x ↔
      pks.isEmpty = false ∧ pks.all lib.hasSubkey = true ∧
        ∃ c, lib.encrypt pks s.body = some c ∧
          x = ⟨multipartType encryptedSubtype b.encrypted, encryptedBody b.encrypted c⟩ := by
  unfold wrapEncrypted
  cases hnone : pks.isEmpty with
  | true => simp
  | false =>
    cases hsub : pks.all lib.hasSubkey with
    | false => simp
    | true =>
      cases hc : lib.encrypt pks s.body with
      | none => simp
      | some c =>
        constructor
        · intro h
          cases h
          exact ⟨rfl, rfl, c, rfl, rfl⟩
        · rintro ⟨-, -, c', hc', rfl⟩
          cases hc'
          rfl

theorem encryptStep_eq_ok (henc : opts.encrypt = true) :
    encryptStep lib b toLowercase keys opts emails s = .ok x ↔
      ∃ pks, resolveRecipientPublicKeys lib toLowercase keys opts.recipientKeyIds emails = .ok pks ∧
        wrapEncrypted lib b s pks = .ok x := by
  unfold encryptStep
  rw [if_pos henc]
  cases hpks : resolveRecipientPublicKeys lib toLowercase keys opts.recipientKeyIds emails with
  | error e => simp
  | ok pks => simp

/-- Under the mask the step forgets the payload. -/
theorem encryptStep_masked (henc : opts.encrypt = true) :
    encryptStep (lib.masked e) b toLowercase keys opts emails s =
      encryptStep (lib.masked e) b toLowercase keys opts emails s' := by
  unfold encryptStep
  rw [if_pos henc, if_pos henc]
  rfl

/-- The ciphertext that was made can stand for the mask. -/
theorem encryptStep_self (henc : opts.encrypt = true)
    (h : encryptStep lib b toLowercase keys opts emails s = .ok x) :
    ∃ pks c, resolveRecipientPublicKeys lib toLowercase keys opts.recipientKeyIds emails =
        .ok pks ∧ lib.encrypt pks s.body = some c ∧
      encryptStep (lib.masked fun _ => some c) b toLowercase keys opts emails s = .ok x := by
  obtain ⟨pks, hpks, hwrap⟩ := (encryptStep_eq_ok henc).mp h
  obtain ⟨hne, hsub, c, hc, rfl⟩ := wrapEncrypted_eq_ok.mp hwrap
  refine ⟨pks, c, hpks, hc, (encryptStep_eq_ok henc).mpr ⟨pks, ?_, ?_⟩⟩
  · rw [resolve_masked]
    exact hpks
  · exact wrapEncrypted_eq_ok.mpr ⟨hne, hsub, c, rfl, rfl⟩

variable {draft draft' : OutboundDraft}

/-- Under the mask the wrapper tells nothing of the bodies. -/
theorem wrapOutbound_masked (henc : opts.encrypt = true)
    (hemails : draft'.recipientEmails = draft.recipientEmails)
    (h : wrapOutboundOpengpg (lib.masked e) b toLowercase ring account opts draft = .ok (some x))
    (h' : wrapOutboundOpengpg (lib.masked e) b toLowercase ring account opts draft' =
      .ok (some x')) : x = x' := by
  obtain ⟨-, -, keys, signing, hkeys, hsigning, hlayers⟩ := wrapOutbound_eq_some.mp h
  obtain ⟨-, -, keys', signing', hkeys', hsigning', hlayers'⟩ := wrapOutbound_eq_some.mp h'
  obtain rfl := Except.ok.inj (hkeys.symm.trans hkeys')
  obtain rfl := Except.ok.inj (hsigning.symm.trans hsigning')
  obtain ⟨s, y, -, hy, hx⟩ := wrapLayers_eq_ok.mp hlayers
  obtain ⟨s', y', -, hy', hx'⟩ := wrapLayers_eq_ok.mp hlayers'
  rw [hemails] at hy'
  have hsame := hy.symm.trans ((encryptStep_masked henc).trans hy')
  obtain rfl := Except.ok.inj hsame
  exact Except.ok.inj (hx.symm.trans hx')

theorem wrapOutbound_self (henc : opts.encrypt = true)
    (h : wrapOutboundOpengpg lib b toLowercase ring account opts draft = .ok (some x)) :
    ∃ keys pks c payload, ring.keys = .ok keys ∧
      resolveRecipientPublicKeys lib toLowercase keys opts.recipientKeyIds
        draft.recipientEmails = .ok pks ∧ lib.encrypt pks payload = some c ∧
      wrapOutboundOpengpg (lib.masked fun _ => some c) b toLowercase ring account opts draft =
        .ok (some x) := by
  obtain ⟨hany, hempty, keys, signing, hkeys, hsigning, hlayers⟩ := wrapOutbound_eq_some.mp h
  obtain ⟨s, y, hs, hy, hx⟩ := wrapLayers_eq_ok.mp hlayers
  obtain ⟨pks, c, hpks, hc, hself⟩ := encryptStep_self henc hy
  refine ⟨keys, pks, c, s.body, hkeys, hpks, hc, wrapOutbound_eq_some.mpr ?_⟩
  exact ⟨hany, hempty, keys, signing, hkeys, hsigning, wrapLayers_eq_ok.mpr ⟨s, y, hs, hself, hx⟩⟩

end Wrapper

/-! ## What is sent -/

section Sent

variable {κ : Type} {w : SendWorld κ} {m : Mailer} {r r' : SendMessageRequest}
  {opts : OpengpgSendOptions} {acc : SendingAccount} {x : OpengpgMimeBody} {t t' : Transmission}

/-- A body with the attachments beside it. -/
def beside (m : Mailer) (body : MimePart) (files : List OutboundAttachment) : MimePart :=
  if files.isEmpty then body
  else .multi "mixed".toList (body :: files.map (attachmentPart m))

theorem buildBodyPart_wrapped {msg : OutboundMessage} {ct body : Text}
    (hct : msg.mimeContentType = some ct) (hbody : msg.mimeBody = some body) {y : MimePart} :
    buildBodyPart m msg = .ok y ↔ ∃ ct' ∈ m.parseContentType ct, y = .single ct' body := by
  unfold buildBodyPart
  simp only [hct, hbody]
  cases hparse : m.parseContentType ct with
  | none => simp
  | some ct' => simp [eq_comm]

theorem buildContent_wrapped {msg : OutboundMessage} {ct body : Text}
    (hct : msg.mimeContentType = some ct) (hbody : msg.mimeBody = some body) {y : MimePart} :
    buildContent m msg = .ok y ↔
      ∃ ct' ∈ m.parseContentType ct, y = beside m (.single ct' body) msg.attachments := by
  unfold buildContent
  have hparts : msg.attachments.partition
      (fun a => msg.mimeBody.isNone && a.contentId.isSome) = ([], msg.attachments) := by
    rw [List.partition_eq_filter_filter]
    simp [hbody]
  rw [bind_eq_ok, hparts]
  constructor
  · rintro ⟨body', hbody', h⟩
    obtain ⟨ct', hct', rfl⟩ := (buildBodyPart_wrapped hct hbody).mp hbody'
    obtain rfl := Except.ok.inj h
    exact ⟨ct', hct', rfl⟩
  · rintro ⟨ct', hct', rfl⟩
    exact ⟨_, (buildBodyPart_wrapped hct hbody).mpr ⟨ct', hct', rfl⟩, rfl⟩

/-- The message of a request, around its wrapper. -/
def OutboundMessage.ofRequest (r : SendMessageRequest) (acc : SendingAccount)
    (x : OpengpgMimeBody) : OutboundMessage :=
  { outboundMessage r acc (some x) with attachments := r.files }

/-- The addresses a message goes to. -/
def sentAddresses (r : SendMessageRequest) : List Text :=
  (parseAddressList (r.recipients ++ r.cc ++ r.bcc)).map (·.2)

theorem addresses_ofRequest : (OutboundMessage.ofRequest r acc x).addresses = sentAddresses r := by
  unfold OutboundMessage.addresses OutboundMessage.ofRequest outboundMessage sentAddresses
    parseAddressList
  simp only [List.filterMap_append]

/-- A request that is not refused before the plugin, and the wrapper of its message. -/
structure Accepted (w : SendWorld κ) (r : SendMessageRequest) (acc : SendingAccount)
    (x : OpengpgMimeBody) : Prop where
  account : w.account = some acc
  active : acc.isActive = true
  known : acc.sendProtocol ≠ .other
  recipients : (parseAddressList r.recipients).isEmpty = false
  wrapped : wrapRequest w r = .ok (some x)
  connected : w.connect = .ok ()

theorem wrapRequest_eq (hopts : r.opengpg = some opts) :
    wrapRequest w r = .ok (some x) ↔
      wrapOutboundOpengpg w.lib w.boundaries w.toLowercase w.ring r.accountId opts
        ⟨r.bodyText, r.bodyHtml, opengpgRecipientEmails w.toLowercase r⟩ = .ok (some x) := by
  unfold wrapRequest
  rw [hopts]
  simp only
  cases wrapOutboundOpengpg w.lib w.boundaries w.toLowercase w.ring r.accountId opts
    ⟨r.bodyText, r.bodyHtml, opengpgRecipientEmails w.toLowercase r⟩ with
  | error e => simp
  | ok y => simp

theorem wrapRequest_encrypt (hopts : r.opengpg = some opts) (henc : opts.encrypt = true)
    {y : Option OpengpgMimeBody} (h : wrapRequest w r = .ok y) : ∃ x, y = some x := by
  unfold wrapRequest at h
  rw [hopts] at h
  simp only at h
  cases hwrap : wrapOutboundOpengpg w.lib w.boundaries w.toLowercase w.ring r.accountId opts
    ⟨r.bodyText, r.bodyHtml, opengpgRecipientEmails w.toLowercase r⟩ with
  | error e =>
    rw [hwrap] at h
    cases h
  | ok y' =>
    rw [hwrap] at h
    cases h
    exact wrapOutbound_encrypt henc hwrap

theorem prepare_eq_ok (hopts : r.opengpg = some opts) (henc : opts.encrypt = true)
    {p : SendProtocol × OutboundMessage} :
    prepare w r = .ok p ↔ ∃ acc x, w.account = some acc ∧ acc.isActive = true ∧
      acc.sendProtocol ≠ .other ∧ (parseAddressList r.recipients).isEmpty = false ∧
      wrapRequest w r = .ok (some x) ∧
      p = (acc.sendProtocol, outboundMessage r acc (some x)) := by
  unfold prepare
  cases hacc : w.account with
  | none => simp
  | some acc =>
    cases hactive : acc.isActive with
    | false => simp [hactive]
    | true =>
      simp only [hactive, Bool.not_true, Bool.false_eq_true, if_false]
      rcases eq_or_ne acc.sendProtocol .other with hother | hknown
      · simp [hother]
      · rw [if_neg hknown]
        cases hempty : (parseAddressList r.recipients).isEmpty with
        | true => simp
        | false =>
          cases hwrap : wrapRequest w r with
          | error e => simp
          | ok y =>
            obtain ⟨x, rfl⟩ := wrapRequest_encrypt hopts henc hwrap
            constructor
            · intro h
              exact ⟨acc, x, rfl, hactive, hknown, rfl, rfl, (Except.ok.inj h).symm⟩
            · rintro ⟨acc', x', hacc', -, -, -, hwrap', rfl⟩
              cases hacc'
              cases hwrap'
              rfl

theorem sendMessage_eq_ok (hopts : r.opengpg = some opts) (henc : opts.encrypt = true) :
    sendMessage w r = .ok t ↔ ∃ acc x, Accepted w r acc x ∧
      deliver w acc.sendProtocol (.ofRequest r acc x) = .ok t := by
  unfold sendMessage
  constructor
  · intro h
    cases hp : prepare w r with
    | error e =>
      rw [hp] at h
      cases h
    | ok p =>
      rw [hp] at h
      obtain ⟨acc, x, hacc, hactive, hknown, hto, hwrap, rfl⟩ := (prepare_eq_ok hopts henc).mp hp
      refine ⟨acc, x, ⟨hacc, hactive, hknown, hto, hwrap, ?_⟩, h⟩
      simp only [deliver] at h
      cases hc : w.connect with
      | error e =>
        rw [hc] at h
        cases h
      | ok u => rfl
  · rintro ⟨acc, x, hacc, h⟩
    have hp := (prepare_eq_ok hopts henc).mpr
      ⟨acc, x, hacc.account, hacc.active, hacc.known, hacc.recipients, hacc.wrapped, rfl⟩
    rw [hp]
    exact h

theorem deliver_jmap (hacc : Accepted w r acc x) (hjmap : acc.sendProtocol = .jmap) :
    deliver w acc.sendProtocol (.ofRequest r acc x) = .ok t ↔ t = uploaded x.body := by
  unfold deliver
  rw [hacc.connected, hjmap]
  exact ⟨fun h => (Except.ok.inj h).symm, fun h => congrArg _ h.symm⟩

/-- What goes out by SMTP. -/
def transmitted (m : Mailer) (r : SendMessageRequest) (acc : SendingAccount) (ct body : Text) :
    Transmission where
  envelope := if (sentAddresses r).isEmpty then [acc.emailAddress] else sentAddresses r
  fromEmail := acc.emailAddress
  recipients := parseAddressList r.recipients
  cc := parseAddressList r.cc
  subject := r.subject
  inReplyTo := r.inReplyTo
  references := r.references
  content := beside m (.single ct body) r.files

theorem buildMessage_wrapped :
    buildMessage m (.ofRequest r acc x) = .ok t ↔
      (acc.emailAddress :: sentAddresses r).all m.parseAddress = true ∧
        ∃ ct ∈ m.parseContentType x.contentType, t = transmitted m r acc ct x.body := by
  have hcontent := @buildContent_wrapped m (.ofRequest r acc x) _ _ rfl rfl
  unfold buildMessage
  rw [addresses_ofRequest]
  change ((if !(acc.emailAddress :: sentAddresses r).all m.parseAddress then _ else _) = _) ↔ _
  cases hall : (acc.emailAddress :: sentAddresses r).all m.parseAddress with
  | false => simp
  | true =>
    cases hbuilt : buildContent m (.ofRequest r acc x) with
    | error e =>
      constructor
      · intro h
        cases h
      · rintro ⟨-, ct, hct, -⟩
        have hok := hcontent.mpr ⟨ct, hct, rfl⟩
        cases hbuilt.symm.trans hok
    | ok y =>
      obtain ⟨ct, hct, rfl⟩ := hcontent.mp hbuilt
      constructor
      · intro h
        cases h
        exact ⟨rfl, ct, hct, rfl⟩
      · rintro ⟨-, ct', hct', rfl⟩
        cases Option.mem_unique hct hct'
        rfl

theorem deliver_smtp (hacc : Accepted w r acc x) (hsmtp : acc.sendProtocol = .smtp) :
    deliver w acc.sendProtocol (.ofRequest r acc x) = .ok t ↔
      (acc.emailAddress :: sentAddresses r).all w.mailer.parseAddress = true ∧
        ∃ ct ∈ w.mailer.parseContentType x.contentType,
          t = transmitted w.mailer r acc ct x.body := by
  unfold deliver
  rw [hacc.connected, hsmtp]
  exact buildMessage_wrapped

end Sent

/-! ## What the ciphertext hides -/

section Hiding

variable {κ : Type} {w : SendWorld κ} {r r' : SendMessageRequest} {opts : OpengpgSendOptions}
  {acc acc' : SendingAccount} {x x' : OpengpgMimeBody} {e : List κ → Option Text}
  {t : Transmission}

theorem SameShape.opengpg (h : SameShape r r') : r'.opengpg = r.opengpg := by
  rw [h.rest]

theorem SameShape.recipientEmails {toLowercase : Text → Text} (h : SameShape r r') :
    opengpgRecipientEmails toLowercase r' = opengpgRecipientEmails toLowercase r := by
  rw [h.rest]
  rfl

theorem Accepted.same (hopts : r.opengpg = some opts) (henc : opts.encrypt = true)
    (hshape : SameShape r r') (h : Accepted (w.masked e) r acc x)
    (h' : Accepted (w.masked e) r' acc' x') : acc' = acc ∧ x' = x := by
  refine ⟨Option.some.inj (h'.account.symm.trans h.account), ?_⟩
  have hwrap := (wrapRequest_eq hopts).mp h.wrapped
  have hwrap' := (wrapRequest_eq (hshape.opengpg.trans hopts)).mp h'.wrapped
  have hid : r'.accountId = r.accountId := by rw [hshape.rest]
  rw [hid] at hwrap'
  exact wrapOutbound_masked henc hshape.recipientEmails.symm hwrap' hwrap

/-- The ciphertext that was made can stand for the mask. -/
theorem Accepted.self (hopts : r.opengpg = some opts) (henc : opts.encrypt = true)
    (h : Accepted w r acc x) :
    ∃ keys pks c payload, w.ring.keys = .ok keys ∧
      resolveRecipientPublicKeys w.lib w.toLowercase keys opts.recipientKeyIds
        (opengpgRecipientEmails w.toLowercase r) = .ok pks ∧ w.lib.encrypt pks payload = some c ∧
      Accepted (w.masked fun _ => some c) r acc x := by
  obtain ⟨keys, pks, c, payload, hkeys, hpks, hc, hself⟩ :=
    wrapOutbound_self henc ((wrapRequest_eq hopts).mp h.wrapped)
  refine ⟨keys, pks, c, payload, hkeys, hpks, hc, ?_⟩
  exact
    { account := h.account
      active := h.active
      known := h.known
      recipients := h.recipients
      wrapped := (wrapRequest_eq hopts).mpr hself
      connected := h.connected }

theorem hidden_of_jmap (hopts : r.opengpg = some opts) (henc : opts.encrypt = true)
    (hacc : w.account = some acc) (hjmap : acc.sendProtocol = .jmap) : Hidden w r := by
  intro e r' hshape t t' ht ht'
  obtain ⟨acc₁, x, ha, hd⟩ := (sendMessage_eq_ok hopts henc).mp ht
  obtain ⟨acc₂, x', ha', hd'⟩ := (sendMessage_eq_ok (hshape.opengpg.trans hopts) henc).mp ht'
  obtain ⟨rfl, rfl⟩ := ha.same hopts henc hshape ha'
  obtain rfl := Option.some.inj (ha.account.symm.trans hacc)
  rw [deliver_jmap ha hjmap] at hd
  rw [deliver_jmap ha' hjmap] at hd'
  rw [hd, hd']

/-- Attachments without bytes have no secrets. -/
theorem SameShape.files_eq (h : SameShape r r') (hempty : ∀ a ∈ r.files, a.data = []) :
    r'.files = r.files := by
  have hfiles := h.files
  generalize r.files = l at hfiles hempty
  generalize r'.files = l' at hfiles
  induction hfiles with
  | nil => rfl
  | @cons a a' l l' hhead _ ih =>
    have hdata := hempty a List.mem_cons_self
    have hdata' : a'.data = [] := List.length_eq_zero_iff.mp (by rw [hhead.2, hdata]; rfl)
    rw [ih fun b hb => hempty b (List.mem_cons_of_mem _ hb), hhead.1, hdata', ← hdata]

theorem hidden_of_empty (hopts : r.opengpg = some opts) (henc : opts.encrypt = true)
    (hempty : ∀ a ∈ r.files, a.data = []) (hacc : w.account = some acc)
    (hsmtp : acc.sendProtocol = .smtp) : Hidden w r := by
  intro e r' hshape t t' ht ht'
  obtain ⟨acc₁, x, ha, hd⟩ := (sendMessage_eq_ok hopts henc).mp ht
  obtain ⟨acc₂, x', ha', hd'⟩ := (sendMessage_eq_ok (hshape.opengpg.trans hopts) henc).mp ht'
  obtain ⟨rfl, rfl⟩ := ha.same hopts henc hshape ha'
  obtain rfl := Option.some.inj (ha.account.symm.trans hacc)
  obtain ⟨-, ct, hct, rfl⟩ := (deliver_smtp ha hsmtp).mp hd
  obtain ⟨-, ct', hct', rfl⟩ := (deliver_smtp ha' hsmtp).mp hd'
  cases Option.mem_unique hct hct'
  have hfiles := hshape.files_eq hempty
  rw [hshape.rest]
  unfold transmitted
  rw [hfiles]
  rfl

/-- Another byte. -/
def changeByte (x : UInt8) : UInt8 := if x = 0 then 1 else 0

theorem changeByte_ne (x : UInt8) : changeByte x ≠ x := by
  unfold changeByte
  split
  · rename_i h
    rw [h]
    decide
  · rename_i h
    exact fun h' => h h'.symm

def OutboundAttachment.changed (a : OutboundAttachment) : OutboundAttachment :=
  { a with data := a.data.map changeByte }

/-- The request with every byte of its attachments changed. -/
def SendMessageRequest.changed (r : SendMessageRequest) : SendMessageRequest :=
  { r with files := r.files.map OutboundAttachment.changed }

theorem sameShape_changed (r : SendMessageRequest) : SameShape r r.changed where
  rest := rfl
  text := rfl
  html := rfl
  files := by
    unfold SendMessageRequest.changed
    simp only
    induction r.files with
    | nil => exact .nil
    | cons a l ih => exact .cons ⟨rfl, List.length_map _⟩ ih

theorem Accepted.changed (h : Accepted w r acc x) : Accepted w r.changed acc x :=
  ⟨h.account, h.active, h.known, h.recipients, h.wrapped, h.connected⟩

theorem changed_data {l : List UInt8} (h : l.map changeByte = l) : l = [] := by
  cases l with
  | nil => rfl
  | cons x l => exact absurd (List.cons.inj h).1 (changeByte_ne x)

theorem beside_changed {m : Mailer} {body : MimePart} {l : List OutboundAttachment}
    (h : beside m body l = beside m body (l.map OutboundAttachment.changed)) :
    ∀ a ∈ l, a.data = [] := by
  have hparts : l.map (attachmentPart m) = l.map fun a => attachmentPart m a.changed := by
    cases l with
    | nil => rfl
    | cons b l =>
      have htail := congrArg List.tail (MimePart.multi.inj h).2
      rw [List.map_map] at htail
      exact htail
  intro a ha
  have hpart := List.map_inj_left.mp hparts a ha
  exact changed_data (MimePart.attachment.inj hpart).2.2.symm

theorem empty_of_hidden (hopts : r.opengpg = some opts) (henc : opts.encrypt = true)
    (ha : Accepted w r acc x) (hsmtp : acc.sendProtocol = .smtp)
    (hd : deliver w acc.sendProtocol (.ofRequest r acc x) = .ok t) (hidden : Hidden w r) :
    ∀ a ∈ r.files, a.data = [] := by
  obtain ⟨keys, pks, c, payload, -, -, -, hself⟩ := ha.self hopts henc
  obtain ⟨hall, ct, hct, rfl⟩ := (deliver_smtp ha hsmtp).mp hd
  have hd' := (deliver_smtp (hself.changed) hsmtp).mpr ⟨hall, ct, hct, rfl⟩
  have hd'' := (deliver_smtp hself hsmtp).mpr ⟨hall, ct, hct, rfl⟩
  have hsent := (sendMessage_eq_ok hopts henc).mpr ⟨acc, x, hself, hd''⟩
  have hsent' := (sendMessage_eq_ok (r := r.changed) hopts henc).mpr ⟨acc, x, hself.changed, hd'⟩
  have heq := hidden _ _ (sameShape_changed r) _ _ hsent hsent'
  exact beside_changed (congrArg Transmission.content heq)

end Hiding

/-! ## Whose keys are taken -/

section Taken

variable {keys chosen : List StoredKey} {picks : Text → Option Text}
  {toLowercase : Text → Text} {lower : Text} {k : StoredKey} {emails : List Text}

theorem chooseKey_eq_ok : chooseKey keys picks lower = .ok k ↔ TakenFor keys picks lower k := by
  unfold chooseKey TakenFor
  cases hfound : keys.filter (·.names lower) with
  | nil => simp
  | cons k₁ rest =>
    cases rest with
    | nil => simp
    | cons k₂ rest =>
      cases hpick : picks lower with
      | none => simp
      | some pick =>
        have hlength : 2 ≤ (k₁ :: k₂ :: rest).length := Nat.le_add_left 2 rest.length
        simp only [List.cons.injEq, reduceCtorEq, and_false, false_or, hlength, true_and,
          Option.mem_def, Option.some.injEq, exists_eq_left']
        generalize (k₁ :: k₂ :: rest).find? (·.id == pick) = found
        cases found with
        | none => simp
        | some k' => simp

theorem mem_chosen (h : chooseKeys toLowercase keys picks emails = .ok chosen) :
    k ∈ chosen ↔ ∃ b ∈ lookupForms toLowercase emails, TakenFor keys picks b k := by
  have hall := chooseKeys_ok h
  generalize lookupForms toLowercase emails = forms at hall
  clear h
  induction hall with
  | nil => simp
  | @cons b k' forms chosen hk' _ ih =>
    have hb : TakenFor keys picks b k ↔ k = k' := by
      rw [← chooseKey_eq_ok, hk', Except.ok.injEq]
      exact eq_comm
    rw [List.mem_cons, List.exists_mem_cons_iff, hb]
    exact or_congr_right ih

/-- Every form has its key. -/
theorem taken_of_chosen (h : chooseKeys toLowercase keys picks emails = .ok chosen) :
    ∀ b ∈ lookupForms toLowercase emails, ∃ k, TakenFor keys picks b k := by
  have hall := chooseKeys_ok h
  generalize lookupForms toLowercase emails = forms at hall
  clear h
  induction hall with
  | nil => simp
  | @cons b k' forms chosen hk' _ ih =>
    intro b' hb'
    rcases List.mem_cons.mp hb' with rfl | hrest
    · exact ⟨k', chooseKey_eq_ok.mp hk'⟩
    · exact ih b' hrest

theorem existsUnique_chosen (sent : List Text)
    (h : chooseKeys toLowercase keys picks emails = .ok chosen) :
    (∀ a ∈ sent, ∃! k, k ∈ chosen ∧ k.names a = true) ↔
      Reached keys picks (lookupForms toLowercase emails) sent ∧
        Uncrossed keys picks (lookupForms toLowercase emails) sent := by
  constructor
  · intro hall
    constructor
    · intro a ha
      obtain ⟨k, ⟨hk, hnames⟩, -⟩ := hall a ha
      obtain ⟨b, hb, htaken⟩ := (mem_chosen h).mp hk
      exact ⟨b, hb, k, htaken, hnames⟩
    · intro a ha b hb b' hb' k k' hk hk' hnames hnames'
      have hmem : k ∈ chosen := (mem_chosen h).mpr ⟨b, hb, hk⟩
      have hmem' : k' ∈ chosen := (mem_chosen h).mpr ⟨b', hb', hk'⟩
      exact (hall a ha).unique ⟨hmem', hnames'⟩ ⟨hmem, hnames⟩
  · rintro ⟨hreached, huncrossed⟩ a ha
    obtain ⟨b, hb, k, htaken, hnames⟩ := hreached a ha
    refine ⟨k, ⟨(mem_chosen h).mpr ⟨b, hb, htaken⟩, hnames⟩, ?_⟩
    rintro k' ⟨hk', hnames'⟩
    obtain ⟨b', hb', htaken'⟩ := (mem_chosen h).mp hk'
    exact huncrossed a ha b hb b' hb' k k' htaken htaken' hnames hnames'

variable {κ : Type} {w : SendWorld κ} {r : SendMessageRequest} {opts : OpengpgSendOptions}
  {acc : SendingAccount} {x : OpengpgMimeBody} {t : Transmission}

/-- What the keys of an accepted request are. -/
theorem keyed_iff (hopts : r.opengpg = some opts) (henc : opts.encrypt = true)
    (ha : Accepted w r acc x) :
    Keyed w r t ↔ ∀ keys, w.ring.keys = .ok keys →
      Reached keys opts.recipientKeyIds
          (lookupForms w.toLowercase (opengpgRecipientEmails w.toLowercase r))
          (t.envelope.map (addressForm w.toLowercase)) ∧
        Uncrossed keys opts.recipientKeyIds
          (lookupForms w.toLowercase (opengpgRecipientEmails w.toLowercase r))
          (t.envelope.map (addressForm w.toLowercase)) := by
  obtain ⟨keys, pks, c, payload, hkeys, hpks, hc, -⟩ := ha.self hopts henc
  obtain ⟨chosen, hchosen, hread⟩ := resolveRecipientPublicKeys_ok hpks
  have hunique := existsUnique_chosen (t.envelope.map (addressForm w.toLowercase)) hchosen
  rw [List.forall_mem_map] at hunique
  constructor
  · rintro ⟨keys', opts', chosen', pks', hkeys', hopts', hchosen', -, -, hall⟩ keys₀ hkeys₀
    cases hkeys.symm.trans hkeys'
    cases hkeys.symm.trans hkeys₀
    cases hopts.symm.trans hopts'
    cases hchosen.symm.trans hchosen'
    exact hunique.mp hall
  · intro hall
    refine ⟨keys, opts, chosen, pks, hkeys, hopts, hchosen, hread, ⟨payload, ?_⟩, ?_⟩
    · rw [hc]
      exact Option.some_ne_none c
    · exact hunique.mpr (hall keys hkeys)

theorem sentForms_eq : sentForms w r = (sentAddresses r).map (addressForm w.toLowercase) := by
  unfold sentForms sentAddresses
  rw [List.map_map]
  rfl

theorem sentAddresses_ne (ha : Accepted w r acc x) : (sentAddresses r).isEmpty = false := by
  have hto := ha.recipients
  unfold sentAddresses parseAddressList at *
  rw [List.append_assoc, List.filterMap_append, List.map_append]
  cases hlist : r.recipients.filterMap AddressValue.mailbox with
  | nil =>
    rw [hlist] at hto
    cases hto
  | cons p l => rfl

theorem envelope_transmitted {m : Mailer} {ct : Text} (ha : Accepted w r acc x) :
    (transmitted m r acc ct x.body).envelope.map (addressForm w.toLowercase) = sentForms w r := by
  rw [sentForms_eq]
  unfold transmitted
  rw [sentAddresses_ne ha]
  rfl

theorem mem_collectRecipientEmails {toLowercase : Text → Text} {vs : List AddressValue}
    {out : List Text} {lower : Text} :
    lower ∈ collectRecipientEmails toLowercase vs out ↔
      lower ∈ out ∨ ∃ v ∈ vs, ∃ e ∈ v.email, toLowercase e = lower ∧ lower.contains '@' = true := by
  induction vs generalizing out with
  | nil => simp [collectRecipientEmails]
  | cons v rest ih =>
    rw [collectRecipientEmails]
    cases hv : v.email with
    | none => simp [ih, hv]
    | some e =>
      simp only [ih, List.exists_mem_cons_iff, hv, Option.mem_def, Option.some.injEq,
        exists_eq_left']
      rw [← or_assoc]
      apply or_congr_left
      constructor
      · intro h
        split at h
        · rename_i hcond
          rcases List.mem_append.mp h with hout | hlast
          · exact .inl hout
          · have heq := List.mem_singleton.mp hlast
            rw [heq]
            exact .inr ⟨rfl, (Bool.and_eq_true_iff.mp hcond).1⟩
        · exact .inl h
      · rintro (hout | ⟨rfl, hat⟩)
        · split
          · exact List.mem_append_left _ hout
          · exact hout
        · split
          · exact List.mem_append_right _ List.mem_cons_self
          · rename_i hcond
            rw [hat, Bool.true_and] at hcond
            simpa using hcond

theorem mem_opengpgRecipientEmails {toLowercase : Text → Text} {lower : Text} :
    lower ∈ opengpgRecipientEmails toLowercase r ↔
      ∃ v ∈ r.recipients ++ r.cc ++ r.bcc, ∃ e ∈ v.email, toLowercase e = lower ∧
        lower.contains '@' = true := by
  unfold opengpgRecipientEmails
  simp only [List.mem_append, mem_collectRecipientEmails, List.not_mem_nil, false_or, or_and_right,
    exists_or]

/-- Plain entries have a key that names them, as soon as the request is not refused. -/
theorem reached_of_plain (hopts : r.opengpg = some opts) (henc : opts.encrypt = true)
    (ha : Accepted w r acc x) (hplain : PlainEntries w r) {keys : List StoredKey}
    (hkeys : w.ring.keys = .ok keys) :
    Reached keys opts.recipientKeyIds
      (lookupForms w.toLowercase (opengpgRecipientEmails w.toLowercase r)) (sentForms w r) := by
  obtain ⟨keys', pks, c, payload, hkeys', hpks, -, -⟩ := ha.self hopts henc
  cases hkeys.symm.trans hkeys'
  obtain ⟨chosen, hchosen, -⟩ := resolveRecipientPublicKeys_ok hpks
  intro a ha
  obtain ⟨⟨name, s⟩, hsent, rfl⟩ := List.mem_map.mp ha
  obtain ⟨v, hv, hmailbox⟩ := List.mem_filterMap.mp hsent
  obtain ⟨e, he, hlower, hform, hat⟩ := hplain v hv name s hmailbox
  have hmem : addressForm w.toLowercase s ∈
      lookupForms w.toLowercase (opengpgRecipientEmails w.toLowercase r) := by
    refine List.mem_filter.mpr ⟨?_, hat⟩
    rw [← hform]
    exact List.mem_map_of_mem (mem_opengpgRecipientEmails.mpr ⟨v, hv, e, he, rfl, hlower⟩)
  obtain ⟨k, hk⟩ := taken_of_chosen hchosen _ hmem
  exact ⟨_, hmem, k, hk, (chooseKey_ok (chooseKey_eq_ok.mpr hk)).2.1⟩

end Taken

/-! ## Exactly when a message is covered -/

section Main

variable {κ : Type} {w : SendWorld κ} {r : SendMessageRequest} {opts : OpengpgSendOptions}
  {t : Transmission}

/-- Exactly when an accepted message is covered by its encryption. -/
theorem encryption_covers_iff (hopts : r.opengpg = some opts) (henc : opts.encrypt = true)
    (h : sendMessage w r = .ok t) : Covers w r t ↔ Contained w r := by
  obtain ⟨acc, x, ha, hd⟩ := (sendMessage_eq_ok hopts henc).mp h
  have hprotocol : acc.sendProtocol = .jmap ∨ acc.sendProtocol = .smtp := by
    have hknown := ha.known
    cases hp : acc.sendProtocol with
    | smtp => exact .inr rfl
    | jmap => exact .inl rfl
    | other => exact absurd hp hknown
  obtain hjmap | hsmtp := hprotocol
  · have hcovers : Covers w r t := by
      refine ⟨hidden_of_jmap hopts henc ha.account hjmap, (keyed_iff hopts henc ha).mpr ?_⟩
      rw [(deliver_jmap ha hjmap).mp hd]
      intro keys _
      exact ⟨fun a ha => (List.not_mem_nil ha).elim, fun a ha => (List.not_mem_nil ha).elim⟩
    exact iff_of_true hcovers (.inl ⟨acc, ha.account, hjmap⟩)
  · have henvelope : t.envelope.map (addressForm w.toLowercase) = sentForms w r := by
      obtain ⟨-, ct, -, rfl⟩ := (deliver_smtp ha hsmtp).mp hd
      exact envelope_transmitted ha
    have hkeyed := keyed_iff (t := t) hopts henc ha
    rw [henvelope] at hkeyed
    constructor
    · rintro ⟨hidden, hkeys⟩
      refine .inr ⟨empty_of_hidden hopts henc ha hsmtp hd hidden, fun keys opts' hring hopts' => ?_⟩
      cases hopts.symm.trans hopts'
      exact hkeyed.mp hkeys keys hring
    · rintro (⟨acc', hacc', hjmap⟩ | ⟨hempty, hkeys⟩)
      · cases ha.account.symm.trans hacc'
        cases hjmap.symm.trans hsmtp
      · refine ⟨hidden_of_empty hopts henc hempty ha.account hsmtp, hkeyed.mpr fun keys hring => ?_⟩
        exact hkeys keys opts hring hopts

end Main

/-- A key for one contact. -/
def bobKey : StoredKey :=
  ⟨"k1".toList, "u".toList, none, "f1".toList, "bob@x".toList, ["bob@x".toList], false, false,
    false, "bob's key".toList, 0, 0⟩

/-- A server that sends by SMTP, with one contact's key. -/
def exampleWorld : SendWorld Text where
  lib :=
    { publicArmored := some
      readPublic := some
      hasSubkey := fun _ => true
      sign := fun key _ data => some (key ++ data)
      encrypt := fun keys data => some (keys.flatten ++ data.reverse) }
  boundaries := ⟨"b1".toList, "b2".toList, "b3".toList, "b4".toList⟩
  toLowercase := fun s => s.map Char.toLower
  ring := { keys := .ok [bobKey], unlocked := fun _ => none }
  mailer := { parseAddress := fun s => s.contains '@', parseContentType := some }
  account := some ⟨true, .smtp, "alice@x".toList⟩
  connect := .ok ()
  submitPlain := fun _ => .error (.protocol "no plugin")

/-- An encrypted message to the contact. -/
def exampleRequest (files : List OutboundAttachment) : SendMessageRequest where
  accountId := "a".toList
  recipients := [.string "Bob@x".toList]
  cc := []
  bcc := []
  subject := "hello".toList
  bodyText := some "secret".toList
  bodyHtml := none
  inReplyTo := none
  references := none
  opengpg := some { encrypt := true }
  files := files

theorem taken_bob {picks : Text → Option Text} {lower : Text} {k : StoredKey}
    (h : TakenFor [bobKey] picks lower k) : k = bobKey :=
  List.mem_singleton.mp (chooseKey_ok (chooseKey_eq_ok.mpr h)).1

theorem example_contained : Contained exampleWorld (exampleRequest []) := by
  refine .inr ⟨fun a ha => (List.not_mem_nil ha).elim, fun keys opts hkeys _ => ?_⟩
  obtain rfl := Except.ok.inj hkeys
  constructor
  · intro a ha
    have hbob : a = "bob@x".toList := List.mem_singleton.mp ha
    refine ⟨"bob@x".toList, by decide +kernel, bobKey, .inl (by decide +kernel), ?_⟩
    rw [hbob]
    decide +kernel
  · intro a _ b _ b' _ k k' hk hk' _ _
    rw [taken_bob hk, taken_bob hk']

theorem example_covers : ∃ t, sendMessage exampleWorld (exampleRequest []) = .ok t ∧
    Covers exampleWorld (exampleRequest []) t :=
  ⟨_, rfl, (encryption_covers_iff rfl rfl rfl).mpr example_contained⟩

/-- The bytes of an attachment stand beside the wrapper. -/
theorem attachment_shown :
    ∃ t, sendMessage exampleWorld (exampleRequest [⟨[], [], [7], none⟩]) = .ok t ∧
      ¬Covers exampleWorld (exampleRequest [⟨[], [], [7], none⟩]) t := by
  refine ⟨_, rfl, fun h => ?_⟩
  obtain ⟨acc, x, ha, hd⟩ := (sendMessage_eq_ok (w := exampleWorld)
    (r := exampleRequest [⟨[], [], [7], none⟩]) rfl rfl).mp rfl
  have hsmtp : acc.sendProtocol = .smtp := by
    cases ha.account
    rfl
  have hdata := empty_of_hidden rfl rfl ha hsmtp hd h.hidden _ List.mem_cons_self
  cases hdata

end Lyra.Opengpg
