import Lyra.Opengpg.Send
import Lyra.Lib.Multipart

/-!
# Reading OpenPGP mail

`opengpg/read.rs`: the first armored block of the bodies or of the attachments is decrypted with the
unlocked keys; where there is none, a cleartext signature is checked.  The OpenPGP library, the mail
parser's view of what was decrypted and the sanitizer are parameters, and contents are texts.

* `processMessageBodies_eq_none`: without a block, nothing is decrypted or checked;
* `processMessageBodies_eq_some`: a block hides the HTML.
-/

namespace Lyra.Opengpg

open Lyra.Lib

/-! ## Blocks -/

def beginMessage : Text := "-----BEGIN PGP MESSAGE-----".toList

def endMessage : Text := "-----END PGP MESSAGE-----".toList

def beginSigned : Text := "-----BEGIN PGP SIGNED MESSAGE-----".toList

def endSignature : Text := "-----END PGP SIGNATURE-----".toList

/-- `extract_armored_block`: both markers are part of it. -/
def extractBlock (text first last : Text) : Option Text :=
  match findText first text with
  | none => none
  | some start =>
    (findText last (text.drop start)).map fun i => (text.drop start).take (i + last.length)

def extractArmoredMessage (text : Text) : Option Text := extractBlock text beginMessage endMessage

def extractCleartextSigned (text : Text) : Option Text :=
  extractBlock text beginSigned endSignature

def findArmoredInAttachments (atts : List Text) : Option Text :=
  atts.findSome? extractArmoredMessage

/-- The first byte has its highest bit set. -/
def looksLikeBinaryOpenpgp : Text → Bool
  | [] => false
  | c :: _ => 128 ≤ c.toNat

/-! ## Messages -/

structure OpengpgSignatureStatus where
  fingerprint : Text
  email : Option Text
  valid : Bool
  time : Option Text := none
  deriving DecidableEq, Repr

structure OpengpgMessageStatus where
  encrypted : Bool
  decrypted : Bool
  signatures : List OpengpgSignatureStatus := []
  error : Option String := none
  deriving DecidableEq, Repr

structure DecryptedBodies where
  bodyText : Option Text := none
  bodyHtml : Option Text := none
  status : OpengpgMessageStatus
  deriving DecidableEq, Repr

/-- The library as the reader uses it: secret keys, messages, what they decrypt to, and
cleartext signed messages. -/
structure PgpReader (κ σ μ δ γ : Type) extends Pgp κ where
  /-- `SignedSecretKey::from_string`. -/
  readSecret : Text → Option σ
  /-- `Message::from_bytes`, or else `from_armor`. -/
  readMessage : Text → Option μ
  decrypt : μ → Text → σ → Option δ
  decompress : δ → Option δ
  /-- `as_data_vec`. -/
  content : δ → Option Text
  isSigned : δ → Bool
  /-- `verify_nested` finds a valid signature. -/
  verifyNested : δ → κ → Bool
  readCleartext : Text → Option γ
  cleartext : γ → Text
  verify : γ → κ → Bool

/-- The mail parser and `sanitize_email_html`. -/
structure MailReader where
  /-- `body_text(0)` and `body_html(0)` of a message. -/
  parse : Text → Option (Option Text × Option Text)
  textToHtml : Text → Text
  htmlToText : Text → Text
  sanitize : Text → Text

def persistBodyHtml (mail : MailReader) (html : Option Text) : Option Text := html.map mail.sanitize

/-- The text begins, after white space and in any case, with a mark of HTML. -/
def looksLikeHtml (text : Text) : Bool :=
  let lower := (trimStart text).map Char.toLower
  "<!doctype".toList.isPrefixOf lower || "<html".toList.isPrefixOf lower

section Read

variable {κ σ μ δ γ : Type} (lib : PgpReader κ σ μ δ γ) (mail : MailReader)

def bodiesFromDecrypted (content : Text) : Option Text × Option Text :=
  match mail.parse content with
  | some (text, html) =>
    if text.isSome || (persistBodyHtml mail html).isSome then (text, persistBodyHtml mail html)
    else plain
  | none => plain
where
  plain : Option Text × Option Text :=
    if looksLikeHtml content then (none, persistBodyHtml mail (some content))
    else (some content, none)

/-- The keys with a valid signature on a message. -/
def verifyMessageSignatures (m : δ) (publicKeys : List StoredKey) : List OpengpgSignatureStatus :=
  if !lib.isSigned m then []
  else
    publicKeys.filterMap fun key =>
      match lib.readPublic key.keyData with
      | none => none
      | some pk =>
        if lib.verifyNested m pk then some ⟨key.fingerprint, some key.primaryEmail, true, none⟩
        else none

/-- The secret keys, one after the other. -/
def trySecrets (data : Text) (publicKeys : List StoredKey) :
    List (StoredKey × Text) → DecryptedBodies
  | [] =>
    { status := { encrypted := true, decrypted := false, error := some "no matching secret key" } }
  | (stored, passphrase) :: rest =>
    match lib.readSecret stored.keyData with
    | none => trySecrets data publicKeys rest
    | some secret =>
      match lib.readMessage data with
      | none =>
        { status :=
            { encrypted := true, decrypted := false, error := some "malformed OpenGPG message" } }
      | some message =>
        match (lib.decrypt message passphrase secret).bind lib.decompress with
        | none => trySecrets data publicKeys rest
        | some m =>
          let bodies := bodiesFromDecrypted mail ((lib.content m).getD [])
          { bodyText := bodies.1
            bodyHtml := bodies.2
            status :=
              { encrypted := true, decrypted := true
                signatures := verifyMessageSignatures lib m publicKeys } }

def decryptBytes (data : Text) (secretKeys : List (StoredKey × Text))
    (publicKeys : List StoredKey) (encrypted : Bool) : DecryptedBodies :=
  if secretKeys.isEmpty then
    { status :=
        { encrypted := encrypted, decrypted := false
          error := some (if encrypted then "locked" else "no matching secret key") } }
  else trySecrets lib mail data publicKeys secretKeys

/-- The signatures of a cleartext message: the first valid one, or else the first key's. -/
def cleartextSignatures (m : γ) :
    List StoredKey → List OpengpgSignatureStatus → List OpengpgSignatureStatus
  | [], found => found
  | key :: rest, found =>
    match lib.readPublic key.keyData with
    | none => cleartextSignatures m rest found
    | some pk =>
      let valid := lib.verify m pk
      if valid || found.isEmpty then
        let found := found ++ [⟨key.fingerprint, some key.primaryEmail, valid, none⟩]
        if valid then found.filter (·.valid) else cleartextSignatures m rest found
      else cleartextSignatures m rest found

def verifyCleartext (csf : Text) (publicKeys : List StoredKey) : DecryptedBodies :=
  match lib.readCleartext csf with
  | none =>
    { status :=
        { encrypted := false, decrypted := false, error := some "malformed cleartext signature" } }
  | some m =>
    let found := cleartextSignatures lib m publicKeys []
    { bodyText := some (lib.cleartext m)
      status :=
        { encrypted := false, decrypted := false
          signatures := if found.isEmpty then [⟨[], none, false, none⟩] else found } }

def processMessageBodies (bodyText bodyHtml : Option Text) (attachmentCandidates : List Text)
    (secretKeys : List (StoredKey × Text)) (publicKeys : List StoredKey) :
    Option DecryptedBodies :=
  let text := bodyText.getD []
  let html := bodyHtml.getD []
  match ((extractArmoredMessage text).or (extractArmoredMessage html)).or
      (findArmoredInAttachments attachmentCandidates) with
  | some armor => some (decryptBytes lib mail armor secretKeys publicKeys true)
  | none =>
    match (extractCleartextSigned text).or (extractCleartextSigned html) with
    | some csf => some (verifyCleartext lib csf publicKeys)
    | none =>
      (attachmentCandidates.find? looksLikeBinaryOpenpgp).map fun bin =>
        decryptBytes lib mail bin secretKeys publicKeys true

end Read

/-! ## A message that arrived -/

def isPlain (leaf : Leaf) : Bool := "text/plain".toList.isPrefixOf leaf.contentType

def isHtml (leaf : Leaf) : Bool := "text/html".toList.isPrefixOf leaf.contentType

/-- `Path::extension`. -/
def extension (path : Text) : Option Text :=
  let name := (path.reverse.takeWhile (· ≠ '/')).reverse
  match (name.reverse.dropWhile (· ≠ '.')).drop 1 with
  | [] => none
  | _ :: _ => some (name.reverse.takeWhile (· ≠ '.')).reverse

/-- The attachments that `load_pgpish_attachments` looks at. -/
def pgpish (leaf : Leaf) : Bool :=
  let contentType := leaf.contentType.map Char.toLower
  (findText "pgp".toList contentType).isSome || (findText "octet-stream".toList contentType).isSome ||
    ((extension (leaf.filename.getD [])).any fun ext =>
      ["asc".toList, "pgp".toList, "gpg".toList].any (eqIgnoreAsciiCase ext))

/-- What the reader takes of the attachments. -/
def candidates (leaves : List Leaf) : List Text :=
  let attachments := leaves.filter fun leaf => !isPlain leaf && !isHtml leaf
  ((attachments.filter pgpish).map Leaf.body).filter fun data =>
    !data.isEmpty && (String.ofList data).utf8ByteSize < 8 * 1024 * 1024

def storedText (mail : MailReader) (leaves : List Leaf) : Option Text :=
  match leaves.find? isPlain with
  | some leaf => some leaf.body
  | none => (leaves.find? isHtml).map fun leaf => mail.htmlToText leaf.body

/-- A message without HTML is stored with some for its text. -/
def storedHtml (mail : MailReader) (leaves : List Leaf) : Option Text :=
  persistBodyHtml mail <|
    match leaves.find? isHtml with
    | some leaf => some leaf.body
    | none => (leaves.find? isPlain).map fun leaf => mail.textToHtml leaf.body

/-- The leaves of a message with this body. -/
def OpengpgMimeBody.leaves (x : OpengpgMimeBody) : List Leaf :=
  readLeaves (splitCrlf x.body).length [typeField ++ x.contentType] (splitCrlf x.body)

/-- The bodies that are shown: those that were decrypted or verified, or else the stored ones. -/
def shownBodies {κ σ μ δ γ : Type} (lib : PgpReader κ σ μ δ γ) (mail : MailReader)
    (leaves : List Leaf) (secretKeys : List (StoredKey × Text)) (publicKeys : List StoredKey) :
    Option Text × Option Text :=
  match processMessageBodies lib mail (storedText mail leaves) (storedHtml mail leaves)
      (candidates leaves) secretKeys publicKeys with
  | some d => (d.bodyText, d.bodyHtml)
  | none => (storedText mail leaves, storedHtml mail leaves)

/-! ## When nothing is found -/

/-- The text has a block that is decrypted or checked. -/
def HasBlock (text : Text) : Prop :=
  extractArmoredMessage text ≠ none ∨ extractCleartextSigned text ≠ none

section Process

variable {κ σ μ δ γ : Type} {lib : PgpReader κ σ μ δ γ} {mail : MailReader}
  {bodyText bodyHtml : Option Text} {atts : List Text} {secretKeys : List (StoredKey × Text)}
  {publicKeys : List StoredKey}

theorem not_hasBlock_nil : ¬ HasBlock [] := by
  intro h
  rcases h with h | h
  · exact h rfl
  · exact h rfl

theorem processMessageBodies_eq_none (htext : ¬ HasBlock (bodyText.getD []))
    (hhtml : ¬ HasBlock (bodyHtml.getD [])) (hatts : ∀ att ∈ atts, extractArmoredMessage att = none)
    (hbinary : ∀ att ∈ atts, looksLikeBinaryOpenpgp att = false) :
    processMessageBodies lib mail bodyText bodyHtml atts secretKeys publicKeys = none := by
  unfold HasBlock at htext hhtml
  simp only [not_or, not_not] at htext hhtml
  have harmored : findArmoredInAttachments atts = none :=
    List.findSome?_eq_none_iff.mpr hatts
  have hnone : atts.find? looksLikeBinaryOpenpgp = none := by
    rw [List.find?_eq_none]
    intro att hatt h
    rw [hbinary att hatt] at h
    cases h
  unfold processMessageBodies
  simp [htext, hhtml, harmored, hnone]

/-- Whatever is found hides the HTML, for a reader without keys. -/
theorem processMessageBodies_eq_some
    (h : HasBlock (bodyText.getD []) ∨ HasBlock (bodyHtml.getD [])) :
    ∃ d, processMessageBodies lib mail bodyText bodyHtml atts [] publicKeys = some d ∧
      d.bodyHtml = none := by
  unfold processMessageBodies
  cases harmored : ((extractArmoredMessage (bodyText.getD [])).or
      (extractArmoredMessage (bodyHtml.getD []))).or (findArmoredInAttachments atts) with
  | some armor =>
    simp only [harmored]
    exact ⟨_, rfl, rfl⟩
  | none =>
    cases hcleartext : (extractCleartextSigned (bodyText.getD [])).or
        (extractCleartextSigned (bodyHtml.getD [])) with
    | some csf =>
      simp only [harmored, hcleartext]
      refine ⟨_, rfl, ?_⟩
      unfold verifyCleartext
      cases lib.readCleartext csf with
      | none => rfl
      | some m => rfl
    | none =>
      exfalso
      simp only [Option.or_eq_none_iff] at harmored hcleartext
      rcases h with (h | h) | (h | h)
      · exact h harmored.1.1
      · exact h hcleartext.1
      · exact h harmored.1.2
      · exact h hcleartext.2

theorem shownBodies_of_block {leaves : List Leaf}
    (h : HasBlock ((storedText mail leaves).getD []) ∨ HasBlock ((storedHtml mail leaves).getD [])) :
    (shownBodies lib mail leaves [] publicKeys).2 = none := by
  obtain ⟨d, hd, hnone⟩ := processMessageBodies_eq_some h
  unfold shownBodies
  rw [hd]
  exact hnone

end Process

end Lyra.Opengpg
