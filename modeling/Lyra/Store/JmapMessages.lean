import Lyra.Store.Messages
import Mathlib.Data.List.Dedup

/-!
# JMAP persistence

The JMAP side of the mail store: the upsert that re-homes a row to the folder of
the batch, the batch transaction, the hard delete by server id, folder rows and
the opaque state cursors.
-/

namespace Lyra

open Lyra.Lib

/-! ## Fetched emails -/

structure EmailAddress where
  name : Option Text := none
  email : Option Text := none
  deriving DecidableEq, Repr

/-- An `Email` object.  `mailboxIds` and `keywords` are JSON maps in iteration
order; `receivedAt` is parsed, and the bodies are the extracted body parts
(`bodyHtml` as `persist_body_html` keeps it). -/
structure JmapEmail where
  id : Text
  threadId : Option Text := none
  mailboxIds : Option (List Text) := none
  keywords : Option (List (Text × Bool)) := none
  subject : Option Text := none
  sender : Option (List EmailAddress) := none
  recipients : Option (List EmailAddress) := none
  cc : Option (List EmailAddress) := none
  receivedAt : Option Nat := none
  preview : Option Text := none
  size : Option Nat := none
  messageId : Option (List Text) := none
  inReplyTo : Option (List Text) := none
  references : Option (List Text) := none
  mailer : Option Text := none
  hasAttachment : Option Bool := none
  bodyText : Option Text := none
  bodyHtml : Option Text := none
  deriving DecidableEq, Repr

namespace JmapEmail

def hasKeyword (m : JmapEmail) (keyword : Text) : Bool :=
  (m.keywords.bind fun ks => ks.lookup keyword).getD false

def isSeen (m : JmapEmail) : Bool := m.hasKeyword "$seen".toList

def isFlagged (m : JmapEmail) : Bool := m.hasKeyword "$flagged".toList

def nameAndAddress (name email : Text) : Text :=
  name ++ " <".toList ++ email ++ ">".toList

/-- An address of `from` and `to`. -/
def formatAddress (a : EmailAddress) : Text :=
  match a.name, a.email with
  | some name, some email => nameAndAddress name email
  | none, some email => email
  | some name, none => name
  | none, none => []

/-- An address of `cc`: a bare name is dropped. -/
def formatCcAddress (a : EmailAddress) : Text :=
  match a.name, a.email with
  | some name, some email => nameAndAddress name email
  | none, some email => email
  | _, _ => []

def formatFrom (m : JmapEmail) : Option Text :=
  (m.sender.bind List.head?).map formatAddress

def toStringList (m : JmapEmail) : Option Text :=
  m.recipients.map fun addrs => List.intercalate ", ".toList (addrs.map formatAddress)

def messageIdHeader (m : JmapEmail) : Option Text := m.messageId.bind List.head?

def jsonBool (b : Bool) : Text := if b then "true".toList else "false".toList

def flagsJson (m : JmapEmail) : Text :=
  match m.keywords with
  | none => "null".toList
  | some ks =>
    Char.ofNat 0x7b ::
      List.intercalate [','] (ks.map fun (k, b) => jsonString k ++ ':' :: jsonBool b) ++
        [Char.ofNat 0x7d]

/-- `labels_from_flags_json` over the keyword names. -/
def labels (m : JmapEmail) : List Text :=
  labelsFromFlags ((m.keywords.getD []).map Prod.fst)

def snippet (m : JmapEmail) : Option Text :=
  m.preview.or (m.subject.map truncateForSnippet)

/-- The sender's mail client, trimmed; blank is absent. -/
def mailerColumn (m : JmapEmail) : Option Text :=
  let trim (s : Text) := ((s.dropWhile Char.isWhitespace).reverse.dropWhile Char.isWhitespace).reverse
  (m.mailer.map trim).filter fun s => !s.isEmpty

/-- The row `message_insert` writes for an email. -/
def toRow (m : JmapEmail) (id : Nat) (acc : AccountId) (folder : FolderId) : MessageRow where
  id := id
  accountId := acc
  folderId := folder
  externalId := some m.id
  messageIdHeader := m.messageIdHeader
  subject := m.subject
  fromAddress := m.formatFrom.map jsonRaw
  toAddresses := m.toStringList.map fun t => jsonArray [t]
  ccAddresses := m.cc.map fun addrs => jsonArray (addrs.map formatCcAddress)
  date := m.receivedAt
  isRead := m.isSeen
  isStarred := m.isFlagged
  flags := some m.flagsJson
  labels := labelsJson m.labels
  sizeBytes := m.size.map saturateI32
  inReplyTo := m.inReplyTo.bind List.head?
  referencesHeaders := m.references.map (List.intercalate [' '])
  mailer := m.mailerColumn
  snippet := m.snippet
  hasAttachments := m.hasAttachment.getD false
  bodyText := m.bodyText
  bodyHtml := m.bodyHtml
  jmapThreadId := m.threadId

end JmapEmail

/-! ## Writes -/

/-- The update of a stored row: flags and thread follow the server, and the row
moves to the folder of the batch. -/
def rehome (incoming current : MessageRow) : MessageRow :=
  { current with
    isRead := incoming.isRead
    isStarred := incoming.isStarred
    flags := incoming.flags
    folderId := incoming.folderId
    jmapThreadId := incoming.jmapThreadId }

/-- Upsert one email; the Boolean says that it was new. -/
def upsertJmapMessageInTx (db : Db) (acc : AccountId) (folder : FolderId) (m : JmapEmail) :
    Bool × Db :=
  let row := m.toRow db.newMessageId acc folder
  ((db.messages.find (acc, m.id)).isNone,
    { db with
      messages := db.messages.upsert row (rehome row) (fun _ => rfl) (fun _ => rfl)
        (fun _ x hx => db.newMessageId_fresh x hx) })

theorem mem_upsertJmapMessageInTx (db : Db) (acc : AccountId) (f : FolderId) (m : JmapEmail)
    (r : MessageRow) :
    r ∈ (upsertJmapMessageInTx db acc f m).2.messages.rows ↔
      (∃ x ∈ db.messages.rows, (if x.key = some (acc, m.id) then
        rehome (m.toRow db.newMessageId acc f) x else x) = r) ∨
      (db.messages.find (acc, m.id) = none ∧ r = m.toRow db.newMessageId acc f) :=
  db.messages.mem_upsert (m.toRow db.newMessageId acc f)
    (rehome (m.toRow db.newMessageId acc f)) (fun _ => rfl) (fun _ => rfl)
    (fun _ x hx => db.newMessageId_fresh x hx) rfl r

/-- Upsert a batch of emails; returns the new and updated tallies. -/
def upsertJmapMessages (acc : AccountId) (folder : FolderId) :
    Db → List JmapEmail → (Nat × Nat) × Db
  | db, [] => ((0, 0), db)
  | db, m :: ms =>
    let (wasNew, db') := upsertJmapMessageInTx db acc folder m
    let ((new, updated), db'') := upsertJmapMessages acc folder db' ms
    (if wasNew then (new + 1, updated) else (new, updated + 1), db'')

def saveJmapCursorInTx (db : Db) (acc : AccountId) (folder : FolderId) (queryState : Nat) : Db :=
  saveCursorValueInTx db acc folder (.stateToken queryState)

def saveJmapEmailState (db : Db) (acc : AccountId) (anchor : FolderId) (state : Nat) : Db :=
  saveCursorValueInTx db acc anchor (.emailState state)

/-- Persist one JMAP mailbox page: upserts, cursor, counters. -/
def persistJmapFolderBatch (db : Db) (acc : AccountId) (folder : FolderId)
    (emails : List JmapEmail) (queryState : Option Nat) : (Nat × Nat) × Db :=
  let (tally, db₁) := upsertJmapMessages acc folder db emails
  let db₂ := match queryState with
    | some qs => saveJmapCursorInTx db₁ acc folder qs
    | none => db₁
  (tally, updateFolderCountsInTx db₂ folder)

/-- The account's rows with one of the given server ids. -/
def hasExternalId (acc : AccountId) (externalIds : List Text) (r : MessageRow) : Bool :=
  r.accountId == acc && r.externalId.any externalIds.contains

/-- The folders of a list of rows. -/
def foldersOf (rows : List MessageRow) : List FolderId := (rows.map MessageRow.folderId).dedup

/-- Hard-delete rows by server id and refresh the counters of their folders. -/
def deleteJmapMessagesByExternalIds (db : Db) (acc : AccountId) (externalIds : List Text) :
    Nat × Db :=
  let gone := db.messages.rows.filter (hasExternalId acc externalIds)
  (gone.length, (foldersOf gone).foldl updateFolderCountsInTx
    { db with messages := db.messages.deleteWhere (hasExternalId acc externalIds) })

/-! ## State cursors -/

def loadJmapCursor (db : Db) (acc : AccountId) (folder : FolderId) : Option Nat :=
  match db.cursors.find (acc, folder, .stateToken) with
  | some ⟨_, _, .stateToken t⟩ => some t
  | _ => none

def loadJmapEmailState (db : Db) (acc : AccountId) (anchor : FolderId) : Option Nat :=
  match db.cursors.find (acc, anchor, .emailState) with
  | some ⟨_, _, .emailState t⟩ => some t
  | _ => none

def clearStateCursor (db : Db) (acc : AccountId) (folder : FolderId) (type : CursorType) : Db :=
  { db with cursors := db.cursors.deleteWhere fun c => decide (c.pk = (acc, folder, type)) }

def clearJmapCursor (db : Db) (acc : AccountId) (folder : FolderId) : Db :=
  clearStateCursor db acc folder .stateToken

def clearJmapEmailState (db : Db) (acc : AccountId) (anchor : FolderId) : Db :=
  clearStateCursor db acc anchor .emailState

/-! ## What a batch stores -/

/-- The account has a row with this server id. -/
def Db.Stored (db : Db) (acc : AccountId) (id : Text) : Prop :=
  (db.messages.find (acc, id)).isSome = true

instance (db : Db) (acc : AccountId) (id : Text) : Decidable (db.Stored acc id) :=
  inferInstanceAs (Decidable (_ = true))

theorem stored_upsertJmapMessageInTx (db : Db) (acc : AccountId) (f : FolderId) (m : JmapEmail)
    (id : Text) :
    (upsertJmapMessageInTx db acc f m).2.Stored acc id ↔ db.Stored acc id ∨ id = m.id := by
  have h := db.messages.find_upsert (m.toRow db.newMessageId acc f)
    (rehome (m.toRow db.newMessageId acc f)) (fun _ => rfl) (fun _ => rfl)
    (fun _ x hx => db.newMessageId_fresh x hx) (k := (acc, m.id)) rfl (acc, id)
  unfold Db.Stored
  rw [show (upsertJmapMessageInTx db acc f m).2.messages.find (acc, id) = _ from h]
  split
  case isTrue e =>
    have he : id = m.id := congrArg Prod.snd e
    simp [he]
  case isFalse e =>
    have he : id ≠ m.id := fun he => e (by rw [he])
    simp [he]

theorem stored_upsertJmapMessages (db : Db) (acc : AccountId) (f : FolderId) (ms : List JmapEmail)
    (id : Text) :
    (upsertJmapMessages acc f db ms).2.Stored acc id ↔
      db.Stored acc id ∨ id ∈ ms.map JmapEmail.id := by
  induction ms generalizing db with
  | nil => simp [upsertJmapMessages]
  | cons m ms ih =>
    have h := ih (upsertJmapMessageInTx db acc f m).2
    rw [stored_upsertJmapMessageInTx] at h
    rw [List.map_cons, List.mem_cons]
    exact h.trans or_assoc

theorem upsertJmapMessages_frame (db : Db) (acc : AccountId) (f : FolderId) (ms : List JmapEmail) :
    (upsertJmapMessages acc f db ms).2.cursors = db.cursors ∧
      (upsertJmapMessages acc f db ms).2.folders = db.folders := by
  induction ms generalizing db with
  | nil => exact ⟨rfl, rfl⟩
  | cons m ms ih => exact ih (upsertJmapMessageInTx db acc f m).2

theorem stored_persistJmapFolderBatch (db : Db) (acc : AccountId) (f : FolderId)
    (ms : List JmapEmail) (qs : Option Nat) (id : Text) :
    (persistJmapFolderBatch db acc f ms qs).2.Stored acc id ↔
      db.Stored acc id ∨ id ∈ ms.map JmapEmail.id := by
  have h := stored_upsertJmapMessages db acc f ms id
  cases qs with
  | none => exact h
  | some q => exact h

/-- A batch writes one cursor, and only with a query state. -/
theorem find_cursors_persistJmapFolderBatch (db : Db) (acc : AccountId) (f : FolderId)
    (ms : List JmapEmail) (qs : Option Nat) (k : AccountId × FolderId × CursorType) :
    (persistJmapFolderBatch db acc f ms qs).2.cursors.find k =
      match qs with
      | none => db.cursors.find k
      | some q => if k = (acc, f, .stateToken) then some ⟨acc, f, .stateToken q⟩
          else db.cursors.find k := by
  have h := (upsertJmapMessages_frame db acc f ms).1
  cases qs with
  | none =>
    show (upsertJmapMessages acc f db ms).2.cursors.find k = _
    rw [h]
  | some q =>
    show (saveCursorValueInTx (upsertJmapMessages acc f db ms).2 acc f
      (.stateToken q)).cursors.find k = _
    rw [find_saveCursorValueInTx, h]
    rfl

theorem loadJmapCursor_persistJmapFolderBatch (db : Db) (acc : AccountId) (f : FolderId)
    (ms : List JmapEmail) (qs : Option Nat) :
    loadJmapCursor (persistJmapFolderBatch db acc f ms qs).2 acc f =
      qs.or (loadJmapCursor db acc f) := by
  unfold loadJmapCursor
  rw [find_cursors_persistJmapFolderBatch]
  cases qs with
  | none => rfl
  | some q => simp

/-! ## Folder rows -/

/-- A folder as inserted, with zero counters. -/
def newFolderRow (db : Db) (acc : AccountId) (externalId name : Text) (role : Option Text)
    (parent : Option FolderId) : FolderRow where
  id := db.newFolderId
  accountId := acc
  externalId := some externalId
  name := name
  role := role
  parentId := parent

/-- Insert the folder, or refresh the one with this external id. -/
def upsertFolderRow (db : Db) (acc : AccountId) (externalId name : Text) (role : Option Text)
    (parent : Option FolderId → Option FolderId) : Db :=
  { db with
    folders := db.folders.upsert (newFolderRow db acc externalId name role (parent none))
      (fun f => { f with name := name, role := role, parentId := parent f.parentId })
      (fun _ => rfl) (fun _ => rfl) (fun _ f hf => db.newFolderId_fresh f hf) }

theorem mem_upsertFolderRow (db : Db) (acc : AccountId) (ext name : Text) (role : Option Text)
    (parent : Option FolderId → Option FolderId) (f : FolderRow) :
    f ∈ (upsertFolderRow db acc ext name role parent).folders.rows ↔
      (∃ x ∈ db.folders.rows, (if x.key = some (acc, ext) then
        { x with name := name, role := role, parentId := parent x.parentId } else x) = f) ∨
      (db.folders.find (acc, ext) = none ∧ f = newFolderRow db acc ext name role (parent none)) :=
  db.folders.mem_upsert (newFolderRow db acc ext name role (parent none))
    (fun f => { f with name := name, role := role, parentId := parent f.parentId })
    (fun _ => rfl) (fun _ => rfl) (fun _ f hf => db.newFolderId_fresh f hf) rfl f

/-- The local folder with an external id. -/
def findFolderId (db : Db) (acc : AccountId) (externalId : Text) : Option FolderId :=
  (db.folders.find (acc, externalId)).map FolderRow.id

theorem findFolderId_eq_some {db : Db} {acc : AccountId} {e : Text} {id : FolderId}
    (h : findFolderId db acc e = some id) :
    ∃ row ∈ db.folders.rows, row.id = id ∧ row.accountId = acc ∧ row.externalId = some e := by
  obtain ⟨row, hrow, rfl⟩ := Option.map_eq_some_iff.mp h
  obtain ⟨hmem, hkey⟩ := (db.folders.find_eq_some_iff _ row).mp hrow
  obtain ⟨ext, hext, hpair⟩ := Option.map_eq_some_iff.mp hkey
  cases hpair
  exact ⟨row, hmem, rfl, rfl, hext⟩

theorem findFolderId_inj {db : Db} {acc : AccountId} {a b : Text} {id : FolderId}
    (ha : findFolderId db acc a = some id) (hb : findFolderId db acc b = some id) : a = b := by
  obtain ⟨row, hrow, hid, -, hext⟩ := findFolderId_eq_some ha
  obtain ⟨row', hrow', hid', -, hext'⟩ := findFolderId_eq_some hb
  obtain rfl : row = row' := db.folders.eq_of_pk hrow hrow' (hid.trans hid'.symm)
  exact Option.some.inj (hext.symm.trans hext')

/-- Upsert an IMAP folder; display name, role and parent path come from the wire
name and the attributes. -/
def upsertFolder (db : Db) (acc : AccountId) (wireName displayName : Text)
    (role parentWire : Option Text) : Db :=
  let parentId := parentWire.bind (findFolderId db acc)
  upsertFolderRow db acc wireName displayName role fun _ => parentId

/-- Upsert a JMAP mailbox; parents are linked later. -/
def upsertJmapFolder (db : Db) (acc : AccountId) (mailboxId name : Text) (role : Option Text) :
    Db :=
  upsertFolderRow db acc mailboxId name role id

/-- Lower case, as far as it can give an ASCII letter: the Kelvin sign folds to `k`. -/
def lowercase (name : Text) : Text :=
  name.map fun c => if c = Char.ofNat 0x212a then 'k' else c.toLower

def inferFolderRole (name : Text) : Option Text :=
  let lower := lowercase name
  if lower = "inbox".toList then some "inbox".toList
  else if lower ∈ ["sent".toList, "sent mail".toList, "sent messages".toList] then
    some "sent".toList
  else if lower ∈ ["drafts".toList, "draft".toList] then some "drafts".toList
  else if lower ∈ ["trash".toList, "deleted".toList, "deleted messages".toList] then
    some "trash".toList
  else if lower ∈ ["spam".toList, "junk".toList, "bulk mail".toList] then some "spam".toList
  else if lower ∈ ["archive".toList, "all mail".toList, "all messages".toList] then
    some "archive".toList
  else none

/-- Set the parent of a folder once both exist. -/
def linkJmapFolderParent (db : Db) (acc : AccountId) (child parent : Text) : Option Db := do
  let childId ← findFolderId db acc child
  let parentId ← findFolderId db acc parent
  return { db with
    folders := db.folders.updateWhere (fun f => f.id == childId)
      (fun f => { f with parentId := some parentId }) (fun _ => rfl) (fun _ => rfl) }

/-- `ORDER BY sort_order LIMIT 1`; among equals the row that was created first. -/
def firstBySortOrder : List FolderRow → Option FolderRow
  | [] => none
  | f :: fs =>
    match firstBySortOrder fs with
    | none => some f
    | some g => if f.sortOrder ≤ g.sortOrder then some f else some g

/-- The account's folder with a role; the local override wins. -/
def folderIdForRole (db : Db) (acc : AccountId) (role : Text) : Option FolderId :=
  (firstBySortOrder (db.folders.rows.filter fun f =>
    f.accountId == acc && f.roleOverride.or f.role == some role)).map FolderRow.id

def firstFolderId (db : Db) (acc : AccountId) : Option FolderId :=
  (firstBySortOrder (db.folders.rows.filter fun f => f.accountId == acc)).map FolderRow.id

end Lyra
