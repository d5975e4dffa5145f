import Lyra.Backup.Credentials
import Lyra.Backup.Mbox
import Lyra.Lib.Packets
import Lyra.Opengpg.Read
import Lyra.Store.Messages

/-!
# Enriching a message

`enrich_message_opengpg` looks for OpenPGP in the bodies of a message and, where they have none, in
some of its attachments: in those whose type or extension may be OpenPGP, it takes every first byte
with its top bit set for the tag of a packet.

* `decryptData_encrypted`: what is tried to decrypt is reported as encrypted;
* `enrich_signals`: a message with an attachment that signals is reported as encrypted;
* `enrich_quiet`: one without is left alone;
* `untouched_iff`: the ordinary messages that are left alone.
-/

namespace Lyra.Opengpg

open Lyra.Lib
open Lyra.Backup (fromUtf8)

/-! ## Attachments -/

/-- A row of the attachments, and what reading its file gives. -/
structure AttachmentRow where
  filename : Option Text
  contentType : Option Text
  file : Option (List UInt8)
  deriving DecidableEq, Repr

/-- `Path::file_name`. -/
def fileName (path : Text) : Option Text :=
  (((path.splitOn '/').filter fun part => part ≠ [] && part ≠ ['.']).getLast?).filter
    (· ≠ ['.', '.'])

/-- The attachment is looked at, by its type or its extension. -/
def AttachmentRow.interesting (row : AttachmentRow) : Bool :=
  let ct := (row.contentType.getD []).map Char.toLower
  let name := (row.filename.getD []).map Char.toLower
  containsText "pgp".toList ct || containsText "octet-stream".toList ct ||
    ((fileName name).bind extension).any fun ext =>
      ["asc".toList, "pgp".toList, "gpg".toList].any (eqIgnoreAsciiCase ext)

/-- `load_pgpish_attachments`. -/
def loadPgpishAttachments (rows : List AttachmentRow) : List (List UInt8) :=
  ((rows.filter AttachmentRow.interesting).filterMap AttachmentRow.file).filter fun data =>
    !data.isEmpty && data.length < 8 * 1024 * 1024

/-- `looks_like_binary_openpgp`. -/
def topBit : List UInt8 → Bool
  | [] => false
  | b :: _ => 128 ≤ b.toNat

/-- `str::from_utf8`. -/
def asText (data : List UInt8) : Option Text := fromUtf8 ⟨data.toArray⟩

def armoredIn (data : List UInt8) : Option Text := (asText data).bind extractArmoredMessage

/-! ## Bodies -/

def beginSignature : Text := "-----BEGIN PGP SIGNATURE-----".toList

def looksEncrypted (text : Text) : Bool := containsText beginMessage text

def looksCleartextSigned (text : Text) : Bool :=
  containsText beginSigned text && containsText beginSignature text

/-- The library, reading messages from bytes. -/
structure PgpData (κ σ μ δ γ : Type) extends PgpReader κ σ μ δ γ where
  readData : List UInt8 → Option μ

inductive DbError
  | database
  deriving DecidableEq, Repr

section Enrich

variable {κ σ μ δ γ : Type} (lib : PgpData κ σ μ δ γ) (mail : MailReader)

/-- `decrypt_bytes`, of what is encrypted. -/
def decryptData (data : List UInt8) (secretKeys : List (StoredKey × Text))
    (publicKeys : List StoredKey) : DecryptedBodies :=
  decryptBytes { lib.toPgpReader with readMessage := fun _ => lib.readData data } mail []
    secretKeys publicKeys true

/-- `process_message_bodies`. -/
def processBodies (bodyText bodyHtml : Option Text) (attachmentCandidates : List (List UInt8))
    (secretKeys : List (StoredKey × Text)) (publicKeys : List StoredKey) :
    Option DecryptedBodies :=
  let text := bodyText.getD []
  let html := bodyHtml.getD []
  match ((extractArmoredMessage text).or (extractArmoredMessage html)).or
      (attachmentCandidates.findSome? armoredIn) with
  | some armor => some (decryptData lib mail (utf8 armor) secretKeys publicKeys)
  | none =>
    match (extractCleartextSigned text).or (extractCleartextSigned html) with
    | some csf => some (verifyCleartext lib.toPgpReader csf publicKeys)
    | none =>
      (attachmentCandidates.find? topBit).map fun bin =>
        decryptData lib mail bin secretKeys publicKeys

/-- `collect_unlocked_secrets`; `ring` is the session's passphrase for a key. -/
def collectUnlockedSecrets (keys : List StoredKey) (ring : Text → Option Text) :
    List (StoredKey × Text) :=
  keys.filterMap fun key => if key.isSecret then (ring key.id).map (key, ·) else none

def preferAccountSecrets (secrets : List (StoredKey × Text)) (account : Option Text) :
    List (StoredKey × Text) :=
  match account with
  | none => secrets
  | some account =>
    secrets.filter (fun pair => pair.1.accountId = some account) ++
      secrets.filter (fun pair => pair.1.accountId ≠ some account)

/-- What the store knows of a message, its user and the account it arrived in. -/
structure MessageStore where
  rows : Except DbError (List AttachmentRow)
  keys : Except DbError (List StoredKey)
  account : Except DbError (Option Text)
  ring : Text → Option Text

/-- The answer for encrypted content without an unlocked key. -/
def lockedBodies (keys : List StoredKey) : DecryptedBodies where
  status :=
    { encrypted := true, decrypted := false
      error := some (if keys.any (·.isSecret) then "locked" else "no matching secret key") }

/-- `enrich_message_opengpg`. -/
def enrichMessageOpengpg (store : MessageStore) (bodyText bodyHtml : Option Text) :
    Except DbError (Option DecryptedBodies) := do
  let text := bodyText.getD []
  let html := bodyHtml.getD []
  let inBodies := looksEncrypted text || looksEncrypted html || looksCleartextSigned text ||
    looksCleartextSigned html
  let atts ← if inBodies then pure [] else store.rows.map loadPgpishAttachments
  if !(inBodies || !atts.isEmpty) then return none
  else
    let keys ← store.keys
    let account ← store.account
    let unlocked := preferAccountSecrets (collectUnlockedSecrets keys store.ring) account
    let encryptedSignal := looksEncrypted text || looksEncrypted html ||
      atts.any fun data => (asText data).any looksEncrypted || topBit data
    if encryptedSignal && unlocked.isEmpty then return some (lockedBodies keys)
    else return processBodies lib mail bodyText bodyHtml atts unlocked keys

end Enrich

/-- The bodies that `finalize_message_response_with_opengpg` answers with. -/
def displayed (bodyText bodyHtml : Option Text) :
    Except DbError (Option DecryptedBodies) → Option Text × Option Text
  | .ok (some d) =>
    if d.status.decrypted || !d.status.encrypted then
      (d.bodyText.or bodyText, d.bodyHtml.or bodyHtml)
    else (bodyText, bodyHtml)
  | _ => (bodyText, bodyHtml)

/-! ## Ordinary mail -/

def armorMark : Text := "-----BEGIN PGP ".toList

/-- No armor in the bodies, and no attachment that is a message, whether its bytes are or what its
armor holds. -/
structure Ordinary (dearmor : List UInt8 → Option (List UInt8)) (store : MessageStore)
    (bodyText bodyHtml : Option Text) : Prop where
  text : ¬armorMark <:+: bodyText.getD []
  html : ¬armorMark <:+: bodyHtml.getD []
  attachments : ∀ rows, store.rows = .ok rows → ∀ row ∈ rows, ∀ data ∈ row.file,
    ¬IsMessage data ∧ ∀ inner ∈ dearmor data, ¬IsMessage inner

/-- No encryption is reported, and what is displayed is what is stored. -/
structure Untouched (bodyText bodyHtml : Option Text)
    (result : Except DbError (Option DecryptedBodies)) : Prop where
  report : ∀ d, result = .ok (some d) → d.status.encrypted = false
  shown : displayed bodyText bodyHtml result = (bodyText, bodyHtml)

/-- What the attachment is taken for: without an unlocked key, the header of an armor is enough. -/
def Signals (locked : Bool) (data : List UInt8) : Bool :=
  topBit data || if locked then (asText data).any looksEncrypted else (armoredIn data).isSome

/-- No attachment that is looked at signals. -/
def Quiet (store : MessageStore) : Prop :=
  ∀ rows keys account, store.rows = .ok rows → store.keys = .ok keys →
    store.account = .ok account → ∀ data ∈ loadPgpishAttachments rows,
      Signals (preferAccountSecrets (collectUnlockedSecrets keys store.ring) account).isEmpty
        data = false

/-! ## What decrypting reports -/

section Reports

variable {κ σ μ δ γ : Type} {lib : PgpData κ σ μ δ γ} {mail : MailReader}
  {secretKeys : List (StoredKey × Text)} {publicKeys keys : List StoredKey} {data : List UInt8}
  {bodyText bodyHtml : Option Text} {atts : List (List UInt8)} {text : Text}

theorem trySecrets_encrypted (pgp : PgpReader κ σ μ δ γ) (data : Text) :
    (trySecrets pgp mail data publicKeys secretKeys).status.encrypted = true := by
  induction secretKeys with
  | nil => rfl
  | cons pair rest ih =>
    obtain ⟨stored, passphrase⟩ := pair
    rw [trySecrets]
    split
    · exact ih
    · split
      · rfl
      · split
        · exact ih
        · rfl

theorem decryptData_encrypted :
    (decryptData lib mail data secretKeys publicKeys).status.encrypted = true := by
  unfold decryptData decryptBytes
  split
  · rfl
  · exact trySecrets_encrypted _ _

/-! ## Bodies without armor -/

theorem not_infix_of_armorMark {pat : Text} (hpat : armorMark <+: pat)
    (h : ¬armorMark <:+: text) : ¬pat <:+: text := fun hinfix => h (hpat.isInfix.trans hinfix)

theorem containsText_eq_false {pat : Text} (h : ¬pat <:+: text) : containsText pat text = false :=
  Bool.eq_false_iff.mpr (mt containsText_iff.mp h)

theorem not_looksEncrypted (h : ¬armorMark <:+: text) : looksEncrypted text = false :=
  containsText_eq_false (not_infix_of_armorMark (by decide) h)

theorem not_looksCleartextSigned (h : ¬armorMark <:+: text) :
    looksCleartextSigned text = false := by
  unfold looksCleartextSigned
  rw [containsText_eq_false (not_infix_of_armorMark (by decide) h), Bool.false_and]

theorem extractBlock_none {first last : Text} (h : ¬first <:+: text) :
    extractBlock text first last = none := by
  unfold extractBlock
  rw [findText_none h]

theorem looksEncrypted_of_armoredIn (h : (armoredIn data).isSome) :
    (asText data).any looksEncrypted = true := by
  unfold armoredIn at h
  cases htext : asText data with
  | none =>
    rw [htext] at h
    cases h
  | some t =>
    rw [htext, Option.bind_some] at h
    rw [Option.any_some]
    by_contra hnot
    rw [looksEncrypted, containsText_iff] at hnot
    rw [extractArmoredMessage, extractBlock_none hnot] at h
    cases h

/-- Without armor in the bodies, only the attachments count. -/
theorem processBodies_ordinary (htext : ¬armorMark <:+: bodyText.getD [])
    (hhtml : ¬armorMark <:+: bodyHtml.getD []) :
    processBodies lib mail bodyText bodyHtml atts secretKeys publicKeys =
      match atts.findSome? armoredIn with
      | some armor => some (decryptData lib mail (utf8 armor) secretKeys publicKeys)
      | none => (atts.find? topBit).map fun bin =>
          decryptData lib mail bin secretKeys publicKeys := by
  have hmark : armorMark <+: beginMessage := by decide
  have hsigned : armorMark <+: beginSigned := by decide
  unfold processBodies extractArmoredMessage extractCleartextSigned
  simp only [extractBlock_none (not_infix_of_armorMark hmark htext),
    extractBlock_none (not_infix_of_armorMark hmark hhtml),
    extractBlock_none (not_infix_of_armorMark hsigned htext),
    extractBlock_none (not_infix_of_armorMark hsigned hhtml), Option.none_or]

theorem processBodies_quiet (htext : ¬armorMark <:+: bodyText.getD [])
    (hhtml : ¬armorMark <:+: bodyHtml.getD [])
    (hquiet : ∀ data ∈ atts, topBit data = false ∧ (armoredIn data).isSome = false) :
    processBodies lib mail bodyText bodyHtml atts secretKeys publicKeys = none := by
  have harmored : atts.findSome? armoredIn = none := by
    rw [List.findSome?_eq_none_iff]
    intro data hdata
    exact Option.not_isSome_iff_eq_none.mp (Bool.eq_false_iff.mp (hquiet data hdata).2)
  have hbinary : atts.find? topBit = none := by
    rw [List.find?_eq_none]
    intro data hdata
    exact Bool.eq_false_iff.mp (hquiet data hdata).1
  rw [processBodies_ordinary htext hhtml, harmored, hbinary]
  rfl

theorem processBodies_signals (htext : ¬armorMark <:+: bodyText.getD [])
    (hhtml : ¬armorMark <:+: bodyHtml.getD []) (hdata : data ∈ atts)
    (hsignal : topBit data = true ∨ (armoredIn data).isSome = true) :
    ∃ d, processBodies lib mail bodyText bodyHtml atts secretKeys publicKeys = some d ∧
      d.status.encrypted = true := by
  rw [processBodies_ordinary htext hhtml]
  cases harmored : atts.findSome? armoredIn with
  | some armor => exact ⟨_, rfl, decryptData_encrypted⟩
  | none =>
    have hbinary : (atts.find? topBit).isSome := by
      rw [List.find?_isSome]
      refine ⟨data, hdata, hsignal.resolve_right ?_⟩
      rw [List.findSome?_eq_none_iff.mp harmored data hdata]
      decide
    obtain ⟨bin, hbin⟩ := Option.isSome_iff_exists.mp hbinary
    rw [hbin]
    exact ⟨_, rfl, decryptData_encrypted⟩

end Reports

/-! ## Enriching -/

section Enriching

variable {κ σ μ δ γ : Type} {lib : PgpData κ σ μ δ γ} {mail : MailReader} {store : MessageStore}
  {bodyText bodyHtml : Option Text} {rows : List AttachmentRow} {keys : List StoredKey}
  {account : Option Text} {data : List UInt8}

/-- The answer for the attachments that were loaded. -/
def answerFor (lib : PgpData κ σ μ δ γ) (mail : MailReader) (bodyText bodyHtml : Option Text)
    (atts : List (List UInt8)) (unlocked : List (StoredKey × Text)) (keys : List StoredKey) :
    Option DecryptedBodies :=
  if (atts.any fun data => (asText data).any looksEncrypted || topBit data) && unlocked.isEmpty then
    some (lockedBodies keys)
  else processBodies lib mail bodyText bodyHtml atts unlocked keys

theorem enrich_ordinary (htext : ¬armorMark <:+: bodyText.getD [])
    (hhtml : ¬armorMark <:+: bodyHtml.getD []) :
    enrichMessageOpengpg lib mail store bodyText bodyHtml = (do
      let atts ← store.rows.map loadPgpishAttachments
      if atts.isEmpty then return none
      else
        let keys ← store.keys
        let account ← store.account
        return answerFor lib mail bodyText bodyHtml atts
          (preferAccountSecrets (collectUnlockedSecrets keys store.ring) account) keys) := by
  unfold enrichMessageOpengpg answerFor
  simp only [not_looksEncrypted htext, not_looksEncrypted hhtml, not_looksCleartextSigned htext,
    not_looksCleartextSigned hhtml, Bool.false_or, Bool.false_eq_true, if_false, Bool.not_not]
  congr 1
  funext atts
  split
  · rfl
  · congr 1
    funext keys
    congr 1
    funext account
    split <;> rfl

theorem answerFor_quiet {atts : List (List UInt8)} {unlocked : List (StoredKey × Text)}
    (htext : ¬armorMark <:+: bodyText.getD []) (hhtml : ¬armorMark <:+: bodyHtml.getD [])
    (hquiet : ∀ data ∈ atts, Signals unlocked.isEmpty data = false) :
    answerFor lib mail bodyText bodyHtml atts unlocked keys = none := by
  have hparts : ∀ data ∈ atts, topBit data = false ∧ (armoredIn data).isSome = false ∧
      (unlocked.isEmpty = true → (asText data).any looksEncrypted = false) := by
    intro data hdata
    have hsignal := hquiet data hdata
    unfold Signals at hsignal
    rw [Bool.or_eq_false_iff] at hsignal
    refine ⟨hsignal.1, ?_, fun hlocked => ?_⟩
    · cases hlocked : unlocked.isEmpty with
      | true =>
        rw [hlocked, if_pos rfl] at hsignal
        exact Bool.eq_false_iff.mpr fun h => by
          rw [looksEncrypted_of_armoredIn h] at hsignal
          cases hsignal.2
      | false =>
        rw [hlocked] at hsignal
        exact hsignal.2
    · rw [hlocked, if_pos rfl] at hsignal
      exact hsignal.2
  unfold answerFor
  rw [if_neg]
  · exact processBodies_quiet htext hhtml fun data hdata =>
      ⟨(hparts data hdata).1, (hparts data hdata).2.1⟩
  · intro h
    rw [Bool.and_eq_true, List.any_eq_true] at h
    obtain ⟨⟨data, hdata, hsignal⟩, hlocked⟩ := h
    obtain ⟨htop, -, hbegin⟩ := hparts data hdata
    rw [hbegin hlocked, htop] at hsignal
    cases hsignal

theorem answerFor_signals {atts : List (List UInt8)} {unlocked : List (StoredKey × Text)}
    (htext : ¬armorMark <:+: bodyText.getD []) (hhtml : ¬armorMark <:+: bodyHtml.getD [])
    (hdata : data ∈ atts) (hsignal : Signals unlocked.isEmpty data = true) :
    ∃ d, answerFor lib mail bodyText bodyHtml atts unlocked keys = some d ∧
      d.status.encrypted = true := by
  unfold answerFor
  unfold Signals at hsignal
  rw [Bool.or_eq_true] at hsignal
  cases hlocked : unlocked.isEmpty with
  | true =>
    rw [hlocked, if_pos rfl] at hsignal
    have hany : (atts.any fun data => (asText data).any looksEncrypted || topBit data) = true :=
      List.any_eq_true.mpr ⟨data, hdata, by rw [Bool.or_eq_true]; exact hsignal.symm⟩
    rw [hany, Bool.true_and, if_pos rfl]
    exact ⟨_, rfl, rfl⟩
  | false =>
    rw [hlocked, if_neg (by decide)] at hsignal
    rw [Bool.and_false, if_neg (by decide)]
    exact processBodies_signals htext hhtml hdata hsignal

theorem untouched_none : Untouched bodyText bodyHtml (.ok none) where
  report _ h := by cases h
  shown := rfl

theorem untouched_error (err : DbError) : Untouched bodyText bodyHtml (.error err) where
  report _ h := by cases h
  shown := rfl

theorem enrich_quiet (htext : ¬armorMark <:+: bodyText.getD [])
    (hhtml : ¬armorMark <:+: bodyHtml.getD []) (hquiet : Quiet store) :
    Untouched bodyText bodyHtml (enrichMessageOpengpg lib mail store bodyText bodyHtml) := by
  rw [enrich_ordinary htext hhtml]
  cases hrows : store.rows with
  | error err => exact untouched_error err
  | ok rows =>
    simp only [Except.map, bind, Except.bind]
    split
    · exact untouched_none
    · cases hkeys : store.keys with
      | error err => exact untouched_error err
      | ok keys =>
        cases haccount : store.account with
        | error err => exact untouched_error err
        | ok account =>
          have hnone : answerFor lib mail bodyText bodyHtml (loadPgpishAttachments rows)
              (preferAccountSecrets (collectUnlockedSecrets keys store.ring) account) keys = none :=
            answerFor_quiet htext hhtml (hquiet rows keys account hrows hkeys haccount)
          simp only [hnone]
          exact untouched_none

theorem enrich_signals (htext : ¬armorMark <:+: bodyText.getD [])
    (hhtml : ¬armorMark <:+: bodyHtml.getD []) (hrows : store.rows = .ok rows)
    (hkeys : store.keys = .ok keys) (haccount : store.account = .ok account)
    (hdata : data ∈ loadPgpishAttachments rows)
    (hsignal : Signals
      (preferAccountSecrets (collectUnlockedSecrets keys store.ring) account).isEmpty data = true) :
    ∃ d, enrichMessageOpengpg lib mail store bodyText bodyHtml = .ok (some d) ∧
      d.status.encrypted = true := by
  obtain ⟨d, hd, hencrypted⟩ : ∃ d, answerFor lib mail bodyText bodyHtml
      (loadPgpishAttachments rows)
      (preferAccountSecrets (collectUnlockedSecrets keys store.ring) account) keys = some d ∧
      d.status.encrypted = true :=
    answerFor_signals htext hhtml hdata hsignal
  refine ⟨d, ?_, hencrypted⟩
  rw [enrich_ordinary htext hhtml, hrows, hkeys, haccount]
  simp only [Except.map, bind, Except.bind]
  rw [if_neg, hd]
  · rfl
  · rw [List.isEmpty_iff]
    exact List.ne_nil_of_mem hdata

/-- A message among the attachments that are looked at signals, as it should. -/
theorem message_signals (h : IsMessage data) (locked : Bool) : Signals locked data = true := by
  obtain ⟨b, rest, rfl, hb⟩ := top_bit_of_message h
  have htop : topBit (b :: rest) = true := decide_eq_true hb
  unfold Signals
  rw [htop, Bool.true_or]

end Enriching

/-- An ordinary message is left alone exactly where none of its attachments that are looked at
signals. -/
theorem untouched_iff {κ σ μ δ γ : Type} (lib : PgpData κ σ μ δ γ) (mail : MailReader)
    (dearmor : List UInt8 → Option (List UInt8)) (store : MessageStore)
    (bodyText bodyHtml : Option Text) :
    (Ordinary dearmor store bodyText bodyHtml →
        Untouched bodyText bodyHtml (enrichMessageOpengpg lib mail store bodyText bodyHtml)) ↔
      (Ordinary dearmor store bodyText bodyHtml → Quiet store) := by
  constructor
  · intro h hord rows keys account hrows hkeys haccount data hdata
    rw [Bool.eq_false_iff]
    intro hsignal
    obtain ⟨d, hd, hencrypted⟩ : ∃ d,
        enrichMessageOpengpg lib mail store bodyText bodyHtml = .ok (some d) ∧
          d.status.encrypted = true :=
      enrich_signals hord.text hord.html hrows hkeys haccount hdata hsignal
    exact absurd ((h hord).report d hd) (by rw [hencrypted]; decide)
  · intro h hord
    exact enrich_quiet hord.text hord.html (h hord)

def photo : AttachmentRow where
  filename := some "photo.jpg".toList
  contentType := some "application/octet-stream".toList
  file := some [0xff, 0xd8, 0xff, 0xe0]

def photoStore : MessageStore where
  rows := .ok [photo]
  keys := .ok []
  account := .ok none
  ring _ := none

/-- A photo sent as a file of no known type: the message is ordinary, and is reported as
encrypted. -/
theorem photo_reported :
    Ordinary (fun _ => none) photoStore (some "Hello".toList) none ∧
      ∀ (κ σ μ δ γ : Type) (lib : PgpData κ σ μ δ γ) (mail : MailReader), ∃ d,
        enrichMessageOpengpg lib mail photoStore (some "Hello".toList) none = .ok (some d) ∧
          d.status.encrypted = true := by
  have htext : ¬armorMark <:+: (some "Hello".toList).getD [] := by decide
  have hhtml : ¬armorMark <:+: (none : Option Text).getD [] := by decide
  constructor
  · refine ⟨htext, hhtml, ?_⟩
    intro rows hrows row hrow data hdata
    obtain rfl := Except.ok.inj hrows
    obtain rfl := List.mem_singleton.mp hrow
    obtain rfl := Option.some.inj hdata
    refine ⟨?_, by simp⟩
    -- the second byte asks for a body of 6591 bytes
    rintro ⟨tags, htags, -⟩
    have hnone : packetTags 4 [0xff, 0xd8, 0xff, 0xe0] = none := by decide
    exact Option.some_ne_none _ (htags.symm.trans hnone)
  · intro κ σ μ δ γ lib mail
    have hdata : [0xff, 0xd8, 0xff, 0xe0] ∈ loadPgpishAttachments [photo] := by decide
    exact enrich_signals htext hhtml rfl rfl rfl hdata rfl

end Lyra.Opengpg
