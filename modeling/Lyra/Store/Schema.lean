import Lyra.Lib.KeyedTable
import Mathlib.Algebra.GroupWithZero.Nat

/-!
# The mail store

The tables `message`, `folder` and `sync_cursor`, with the columns the sync
loops and the request handlers read or write.  Text is a list of characters;
JSON columns hold the text SQLite stores.  The `UNIQUE` constraints of the
schema are fields of the tables (`Lyra.Lib.KeyedTable`).

Times are database ticks: what a timestamp column holds and what the database
compares it with (`datetime('now')` on SQLite).
-/

namespace Lyra

open Lyra.Lib

abbrev Text := List Char

instance : LawfulBEq Text := inferInstance

/-- Folder and account ids are application-generated UUID texts. -/
abbrev AccountId := Text
abbrev FolderId := Text

/-- IMAP UIDs; those a server hands out are below `2 ^ 32`. -/
abbrev Uid := Nat

/-- The failures a store operation or a handler reports. -/
inductive SyncError
  | accountNotFound
  | messageNotFound
  | database
  | imap
  | jmap
  | invalidInput (text : String)
  deriving DecidableEq, Repr

/-- The tallies of a completed sync run. -/
structure SyncResponse where
  foldersSynced : Nat
  messagesSynced : Nat
  messagesUpdated : Nat
  messagesDeleted : Nat
  deriving DecidableEq, Repr

/-- What `message.spam_verdict` holds. -/
inductive SpamVerdict
  | spam
  | blocked
  | allowed
  | clean
  | aiSpam
  | aiClean
  deriving DecidableEq, Repr

/-! ## Rows -/

/-- A row of `message`.  `date` is the parsed header date. -/
structure MessageRow where
  id : Nat
  accountId : AccountId
  folderId : FolderId
  externalId : Option Text
  messageIdHeader : Option Text := none
  subject : Option Text := none
  fromAddress : Option Text := none
  toAddresses : Option Text := none
  ccAddresses : Option Text := none
  date : Option Nat := none
  isRead : Bool := false
  isStarred : Bool := false
  isDraft : Bool := false
  isDeleted : Bool := false
  flags : Option Text := none
  labels : Option Text := none
  sizeBytes : Option Nat := none
  inReplyTo : Option Text := none
  referencesHeaders : Option Text := none
  mailer : Option Text := none
  snippet : Option Text := none
  hasAttachments : Bool := false
  bodyText : Option Text := none
  bodyHtml : Option Text := none
  jmapThreadId : Option Text := none
  snoozedUntil : Option Nat := none
  spamVerdict : Option SpamVerdict := none
  deriving DecidableEq, Repr

/-- `UNIQUE(account_id, external_id)`. -/
def MessageRow.key (r : MessageRow) : Option (AccountId × Text) :=
  r.externalId.map fun e => (r.accountId, e)

/-- A row of `folder`. -/
structure FolderRow where
  id : FolderId
  accountId : AccountId
  externalId : Option Text
  name : Text
  parentId : Option FolderId := none
  role : Option Text := none
  roleOverride : Option Text := none
  sortOrder : Nat := 0
  totalMessages : Nat := 0
  unreadMessages : Nat := 0
  deriving DecidableEq, Repr

/-- `UNIQUE(account_id, external_id)`. -/
def FolderRow.key (r : FolderRow) : Option (AccountId × Text) :=
  r.externalId.map fun e => (r.accountId, e)

/-- Stored IMAP cursor of a folder.  `lastModseq` is 0 when unknown. -/
structure SyncCursorInfo where
  uidValidity : Nat
  lastUid : Uid
  lastModseq : Nat
  deriving DecidableEq, Repr

inductive CursorType
  | uidvalidityUid
  | stateToken
  | emailState
  deriving DecidableEq, Repr

/-- A cursor with its type.  Server state tokens are opaque; the model names
them by numbers. -/
inductive CursorValue
  | uidvalidityUid (info : SyncCursorInfo)
  | stateToken (token : Nat)
  | emailState (token : Nat)
  deriving DecidableEq, Repr

def CursorValue.type : CursorValue → CursorType
  | .uidvalidityUid _ => .uidvalidityUid
  | .stateToken _ => .stateToken
  | .emailState _ => .emailState

/-- A row of `sync_cursor`. -/
structure CursorRow where
  accountId : AccountId
  folderId : FolderId
  value : CursorValue
  deriving DecidableEq, Repr

/-- `UNIQUE(account_id, folder_id, cursor_type)`. -/
def CursorRow.pk (r : CursorRow) : AccountId × FolderId × CursorType :=
  (r.accountId, r.folderId, r.value.type)

/-! ## The database -/

abbrev MessageTable := KeyedTable MessageRow MessageRow.id MessageRow.key
abbrev FolderTable := KeyedTable FolderRow FolderRow.id FolderRow.key
abbrev CursorTable := KeyedTable CursorRow CursorRow.pk fun r => some r.pk

structure Db where
  messages : MessageTable
  folders : FolderTable
  cursors : CursorTable
  /-- The database clock. -/
  now : Nat

/-- A freshly migrated database. -/
def Db.fresh (now : Nat) : Db := ⟨.empty, .empty, .empty, now⟩

/-- A new primary key for `message`. -/
def Db.newMessageId (db : Db) : Nat := freshNat (db.messages.rows.map MessageRow.id)

theorem Db.newMessageId_fresh (db : Db) : ∀ r ∈ db.messages.rows, r.id ≠ db.newMessageId := by
  intro r hr e
  exact freshNat_not_mem _ (List.mem_map.mpr ⟨r, hr, e⟩)

/-- A new primary key for `folder`. -/
def Db.newFolderId (db : Db) : FolderId := freshWord '0' (db.folders.rows.map FolderRow.id)

theorem Db.newFolderId_fresh (db : Db) : ∀ r ∈ db.folders.rows, r.id ≠ db.newFolderId := by
  intro r hr e
  exact freshWord_not_mem '0' _ (List.mem_map.mpr ⟨r, hr, e⟩)

/-- Where the row with external id `e` is, and whether it is soft-deleted. -/
def Db.place (db : Db) (acc : AccountId) (e : Text) : Option (FolderId × Bool) :=
  (db.messages.find (acc, e)).map fun r => (r.folderId, r.isDeleted)

/-- The folder of the row with external id `e`, where one is stored. -/
def Db.home (db : Db) (acc : AccountId) (e : Text) : Option FolderId :=
  (db.messages.find (acc, e)).map MessageRow.folderId

theorem Db.home_eq_place (db : Db) (acc : AccountId) (e : Text) :
    db.home acc e = (db.place acc e).map Prod.fst := by
  rw [Db.home, Db.place, Option.map_map]; rfl

theorem Db.place_of_mem {db : Db} {acc : AccountId} {r : MessageRow} (hr : r ∈ db.messages.rows)
    {e : Text} (hk : r.key = some (acc, e)) :
    db.place acc e = some (r.folderId, r.isDeleted) := by
  rw [Db.place, (db.messages.find_eq_some_iff _ r).mpr ⟨hr, hk⟩, Option.map_some]

theorem Db.exists_of_place {db : Db} {acc : AccountId} {e : Text} {g : FolderId} {d : Bool}
    (h : db.place acc e = some (g, d)) :
    ∃ r ∈ db.messages.rows, r.accountId = acc ∧ r.externalId = some e ∧ r.folderId = g ∧
      r.isDeleted = d := by
  obtain ⟨r, hr, hpair⟩ := Option.map_eq_some_iff.mp h
  obtain ⟨hrm, hrk⟩ := (db.messages.find_eq_some_iff _ r).mp hr
  obtain ⟨e', he', hkey⟩ := Option.map_eq_some_iff.mp hrk
  simp only [Prod.mk.injEq] at hpair hkey
  exact ⟨r, hrm, hkey.1, hkey.2 ▸ he', hpair.1, hpair.2⟩

end Lyra
