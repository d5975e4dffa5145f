import Lyra.Store.Codec

/-!
# Message persistence

The write side of the mail store: the IMAP upsert with its fill-in-on-conflict
rule, the folder wipe, the folder counters, the cursor, and the transactions
built from them (`persistImapFolderBatch`, `repairImapMessages`,
`reconcileFolderDeletions`).

A transaction commits as a whole or not at all, so each is one function on
`Db`; the callers decide whether it commits.

Every operation is described once, by what it does to a lookup
(`find_upsertMessageInTx`, `home_upsertMessages`, …); later modules do not
unfold the definitions.
-/

namespace Lyra

open Lyra.Lib

/-! ## Text columns -/

/-- `str::contains` for a text pattern. -/
def containsText (pat : Text) : Text → Bool
  | [] => pat.isPrefixOf []
  | c :: s => pat.isPrefixOf (c :: s) || containsText pat s

theorem containsText_iff {pat s : Text} : containsText pat s = true ↔ pat <:+: s := by
  induction s with
  | nil => rw [containsText, List.isPrefixOf_iff_prefix, List.prefix_nil, List.infix_nil]
  | cons c s ih =>
    rw [containsText, Bool.or_eq_true, ih, List.isPrefixOf_iff_prefix, List.infix_cons_iff]

/-- What follows the first occurrence of `pat`. -/
def afterText (pat : Text) : Text → Option Text
  | [] => if pat.isPrefixOf [] then some [] else none
  | c :: s => if pat.isPrefixOf (c :: s) then some ((c :: s).drop pat.length) else afterText pat s

/-- The replacement character that marks text decoded with the wrong charset. -/
def mojibakeChar : Char := Char.ofNat 0xfffd

/-- `LIKE '%\u{FFFD}%'`. -/
def isMojibake (col : Option Text) : Bool := col.any (·.contains mojibakeChar)

/-- Stored text that the next sync may replace: absent, empty, still
RFC 2047-encoded (`LIKE '%=?%?=%'`), or mojibake. -/
def staleText (col : Option Text) : Bool :=
  match col with
  | none => true
  | some s =>
    s.isEmpty || ((afterText "=?".toList s).any (containsText "?=".toList)) || isMojibake (some s)

/-- Truncate a subject for snippet storage. -/
def truncateForSnippet (s : Text) : Text :=
  if s.length ≤ 120 then s else s.take 117 ++ "...".toList

/-- A lower-case hexadecimal digit. -/
def hexDigit (n : Nat) : Char := Nat.digitChar n

/-- One character inside a JSON string, as `serde_json` escapes it. -/
def jsonEscape (c : Char) : Text :=
  if c = '"' then ['\\', '"']
  else if c = '\\' then ['\\', '\\']
  else if c = '\n' then ['\\', 'n']
  else if c = '\r' then ['\\', 'r']
  else if c = '\t' then ['\\', 't']
  else if c.toNat = 8 then ['\\', 'b']
  else if c.toNat = 12 then ['\\', 'f']
  else if c.toNat < 32 then ['\\', 'u', '0', '0', hexDigit (c.toNat / 16), hexDigit (c.toNat % 16)]
  else [c]

def jsonString (s : Text) : Text := '"' :: s.flatMap jsonEscape ++ ['"']

def jsonArray (items : List Text) : Text :=
  '[' :: (List.intercalate [','] (items.map jsonString)) ++ [']']

/-- The object `raw: f` that address columns hold. -/
def jsonRaw (s : Text) : Text :=
  Char.ofNat 0x7b :: "\"raw\":".toList ++ jsonString s ++ [Char.ofNat 0x7d]

/-! ## Fetched messages -/

/-- A message as the IMAP adapter returns it.  `date` is the header date after
parsing, and `bodyHtml` is what `persist_body_html` keeps. -/
structure ImapMessage where
  uid : Uid
  messageId : Option Text := none
  subject : Option Text := none
  sender : Option Text := none
  recipient : Option Text := none
  cc : Option Text := none
  date : Option Nat := none
  inReplyTo : Option Text := none
  references : Option Text := none
  mailer : Option Text := none
  flags : List Text := []
  size : Option Nat := none
  bodyText : Option Text := none
  bodyHtml : Option Text := none
  hasAttachments : Bool := false
  deriving DecidableEq, Repr

def ImapMessage.isRead (m : ImapMessage) : Bool :=
  m.flags.any fun f => containsText "Seen".toList f || containsText "\\Seen".toList f

def ImapMessage.isStarred (m : ImapMessage) : Bool :=
  m.flags.any fun f => containsText "Flagged".toList f || containsText "\\Flagged".toList f

def ImapMessage.flagsJson (m : ImapMessage) : Text := jsonArray m.flags

/-- Per-message cap on labels. -/
def maxLabels : Nat := 8

/-- Labels of the `label-*` keywords among the flags, first sight first. -/
def labelsFromFlags (flags : List Text) : List Text :=
  (flags.foldl (fun out flag =>
    match "label-".toList.isPrefixOf flag, flag.drop 6 with
    | true, label => if label ≠ [] ∧ label ∉ out then out ++ [label] else out
    | false, _ => out) []).take maxLabels

/-- Labels as stored: absent when there are none. -/
def labelsJson (labels : List Text) : Option Text :=
  if labels = [] then none else some (jsonArray labels)

/-- `size` where it fits an `i32`. -/
def sizeColumn (size : Option Nat) : Option Nat := size.filter (· < 2 ^ 31)

/-- The row `message_insert` writes for a fetched message. -/
def ImapMessage.toRow (m : ImapMessage) (id : Nat) (acc : AccountId) (folder : FolderId) :
    MessageRow where
  id := id
  accountId := acc
  folderId := folder
  externalId := some (imapMessageExternalId folder m.uid)
  messageIdHeader := m.messageId
  subject := m.subject
  fromAddress := m.sender.map jsonRaw
  toAddresses := m.recipient.map fun t => jsonArray [t]
  ccAddresses := m.cc
  date := m.date
  isRead := m.isRead
  isStarred := m.isStarred
  flags := some m.flagsJson
  labels := labelsJson (labelsFromFlags m.flags)
  sizeBytes := sizeColumn m.size
  inReplyTo := m.inReplyTo
  referencesHeaders := m.references
  mailer := m.mailer
  snippet := m.subject.map truncateForSnippet
  hasAttachments := m.hasAttachments
  bodyText := m.bodyText
  bodyHtml := m.bodyHtml

/-! ## The upsert -/

/-- Keep the stored text unless it is stale. -/
def refreshStale (current incoming : Option Text) : Option Text :=
  if staleText current then incoming else current

/-- `apply_fill_in_on_conflict`: flags follow the server, text columns move off
stale values only, date and header columns only fill absent values. -/
def applyFillInOnConflict (incoming current : MessageRow) : MessageRow :=
  { current with
    isRead := incoming.isRead
    isStarred := incoming.isStarred
    flags := incoming.flags
    subject := refreshStale current.subject incoming.subject
    fromAddress := refreshStale current.fromAddress incoming.fromAddress
    toAddresses := refreshStale current.toAddresses incoming.toAddresses
    ccAddresses := refreshStale current.ccAddresses incoming.ccAddresses
    date := current.date.or incoming.date
    snippet := refreshStale current.snippet incoming.snippet
    messageIdHeader := current.messageIdHeader.or incoming.messageIdHeader
    mailer := current.mailer.or incoming.mailer }

/-- Upsert one IMAP message; the Boolean says that it was new. -/
def upsertMessageInTx (db : Db) (acc : AccountId) (folder : FolderId) (m : ImapMessage) :
    Bool × Db :=
  let row := m.toRow db.newMessageId acc folder
  ((db.messages.find (acc, imapMessageExternalId folder m.uid)).isNone,
    { db with
      messages := db.messages.upsert row (applyFillInOnConflict row) (fun _ => rfl) (fun _ => rfl)
        (fun _ x hx => db.newMessageId_fresh x hx) })

/-- Upsert a batch; returns the new and updated tallies. -/
def upsertMessages (acc : AccountId) (folder : FolderId) : Db → List ImapMessage → (Nat × Nat) × Db
  | db, [] => ((0, 0), db)
  | db, m :: ms =>
    let (wasNew, db') := upsertMessageInTx db acc folder m
    let ((new, updated), db'') := upsertMessages acc folder db' ms
    (if wasNew then (new + 1, updated) else (new, updated + 1), db'')

/-! ## Counters, wipe, cursor -/

/-- The snooze clause of the list endpoints and the counters. -/
def snoozeVisible (now : Nat) (r : MessageRow) : Bool :=
  match r.snoozedUntil with
  | none => true
  | some t => t ≤ now

/-- Rows of `folder_count_stmt`: not deleted, not future-snoozed. -/
def countedIn (folder : FolderId) (now : Nat) (r : MessageRow) : Bool :=
  r.folderId == folder && !r.isDeleted && snoozeVisible now r

def folderTotal (db : Db) (folder : FolderId) : Nat :=
  db.messages.rows.countP (countedIn folder db.now)

def folderUnread (db : Db) (folder : FolderId) : Nat :=
  db.messages.rows.countP fun r => countedIn folder db.now r && !r.isRead

/-- `i32::try_from(n).unwrap_or(i32::MAX)`. -/
def saturateI32 (n : Nat) : Nat := min n (2 ^ 31 - 1)

/-- Recompute one folder's counters. -/
def updateFolderCountsInTx (db : Db) (folder : FolderId) : Db :=
  { db with
    folders := db.folders.updateWhere (fun f => f.id == folder)
      (fun f => { f with
        totalMessages := saturateI32 (folderTotal db folder)
        unreadMessages := saturateI32 (folderUnread db folder) })
      (fun _ => rfl) (fun _ => rfl) }

/-- Delete a folder's messages and its cursors, account-level JMAP state apart
(it only anchors on the folder). -/
def clearFolderMessagesInTx (db : Db) (folder : FolderId) : Db :=
  { db with
    messages := db.messages.deleteWhere fun r => r.folderId == folder
    cursors := db.cursors.deleteWhere fun c =>
      c.folderId == folder && decide (c.value.type ≠ .emailState) }

/-- The conflict clause of the cursor upsert. -/
def replaceCursor (new c : CursorRow) : CursorRow := if c.pk = new.pk then new else c

theorem replaceCursor_pk (new c : CursorRow) : (replaceCursor new c).pk = c.pk := by
  unfold replaceCursor
  split
  · rename_i h; exact h.symm
  · rfl

/-- A cursor row whose key is free has a free primary key (they are the same). -/
theorem cursor_fresh (t : CursorTable) (new : CursorRow)
    (h : ∀ c ∈ t.rows, KeyedTable.clash (fun r => some (CursorRow.pk r)) new c = false) :
    ∀ c ∈ t.rows, c.pk ≠ new.pk := by
  intro c hc e
  have := h c hc
  simp [KeyedTable.clash, e] at this

/-- Upsert one cursor row. -/
def saveCursorValueInTx (db : Db) (acc : AccountId) (folder : FolderId) (v : CursorValue) : Db :=
  { db with
    cursors := db.cursors.upsert ⟨acc, folder, v⟩ (replaceCursor ⟨acc, folder, v⟩)
      (replaceCursor_pk _) (fun c => congrArg some (replaceCursor_pk _ c))
      (cursor_fresh db.cursors _) }

def saveCursorInTx (db : Db) (acc : AccountId) (folder : FolderId) (c : SyncCursorInfo) : Db :=
  saveCursorValueInTx db acc folder (.uidvalidityUid c)

/-- The stored IMAP cursor of a folder. -/
def loadCursor (db : Db) (acc : AccountId) (folder : FolderId) : Option SyncCursorInfo :=
  match db.cursors.find (acc, folder, .uidvalidityUid) with
  | some ⟨_, _, .uidvalidityUid info⟩ => some info
  | _ => none

/-! ## Transactions -/

/-- Persist one IMAP folder page: optional wipe, upserts, cursor, counters. -/
def persistImapFolderBatch (db : Db) (acc : AccountId) (folder : FolderId)
    (messages : List ImapMessage) (cursor : SyncCursorInfo) (clearFirst : Bool) :
    (Nat × Nat) × Db :=
  let db₀ := if clearFirst then clearFolderMessagesInTx db folder else db
  let (tally, db₁) := upsertMessages acc folder db₀ messages
  (tally, updateFolderCountsInTx (saveCursorInTx db₁ acc folder cursor) folder)

/-- A row whose stored subject, snippet, addresses or body is mojibake. -/
def MessageRow.hasMojibake (r : MessageRow) : Bool :=
  isMojibake r.subject || isMojibake r.snippet || isMojibake r.fromAddress ||
    isMojibake r.toAddresses || isMojibake r.bodyText || isMojibake r.bodyHtml

/-- UIDs of up to `limit` mojibake rows of a folder. -/
def mojibakeMessageUids (db : Db) (folder : FolderId) (limit : Nat) : List Uid :=
  ((db.messages.rows.filter fun r => r.folderId == folder && r.hasMojibake).take limit).filterMap
    fun r => (parseImapUid r.externalId).toOption

/-- Upsert re-fetched envelopes and clear the folder's mojibake bodies. -/
def repairImapMessages (db : Db) (acc : AccountId) (folder : FolderId)
    (messages : List ImapMessage) : Db :=
  let db₁ := (upsertMessages acc folder db messages).2
  updateFolderCountsInTx
    { db₁ with
      messages := db₁.messages.updateWhere
        (fun r => r.folderId == folder && (isMojibake r.bodyText || isMojibake r.bodyHtml))
        (fun r => { r with bodyText := none, bodyHtml := none }) (fun _ => rfl) (fun _ => rfl) }
    folder

/-- The row's UID is not among the server's (rows without a readable UID are
never reported). -/
def staleImapRow (serverUids : List Uid) (externalId : Option Text) : Bool :=
  match parseImapUid externalId with
  | .ok uid => !(serverUids.contains uid)
  | .error _ => false

/-- Ids of the local rows whose UID vanished from the server. -/
def staleImapRowIds (localRows : List (Nat × Option Text)) (serverUids : List Uid) : List Nat :=
  localRows.filterMap fun (id, externalId) =>
    if staleImapRow serverUids externalId then some id else none

theorem id_softDeleted (r : MessageRow) : { r with isDeleted := true }.id = r.id := rfl

theorem key_softDeleted (r : MessageRow) : { r with isDeleted := true }.key = r.key := rfl

/-- Soft-delete a folder's rows whose UID vanished from the server; returns how
many. -/
def reconcileFolderDeletions (db : Db) (acc : AccountId) (folder : FolderId)
    (serverUids : List Uid) : Nat × Db :=
  let localRows := (db.messages.rows.filter fun r =>
    r.accountId == acc && r.folderId == folder && !r.isDeleted).map fun r => (r.id, r.externalId)
  let stale := staleImapRowIds localRows serverUids
  if stale = [] then (0, db)
  else
    (stale.length, updateFolderCountsInTx
      { db with
        messages := db.messages.updateWhere (fun r => stale.contains r.id)
          (fun r => { r with isDeleted := true }) id_softDeleted key_softDeleted }
      folder)

/-! ## The rows a reconcile soft-deletes -/

/-- A live row of the folder whose UID vanished from the server. -/
def vanished (acc : AccountId) (folder : FolderId) (serverUids : List Uid) (r : MessageRow) : Bool :=
  r.accountId == acc && r.folderId == folder && !r.isDeleted && staleImapRow serverUids r.externalId

/-- The ids `reconcile_folder_deletions` collects. -/
def vanishedIds (db : Db) (acc : AccountId) (folder : FolderId) (serverUids : List Uid) :
    List Nat :=
  staleImapRowIds ((db.messages.rows.filter fun r =>
    r.accountId == acc && r.folderId == folder && !r.isDeleted).map fun r => (r.id, r.externalId))
    serverUids

theorem mem_vanishedIds {db : Db} {acc : AccountId} {f : FolderId} {us : List Uid}
    {r : MessageRow} (hr : r ∈ db.messages.rows) :
    r.id ∈ vanishedIds db acc f us ↔ vanished acc f us r = true := by
  simp only [vanishedIds, staleImapRowIds, List.mem_filterMap, List.mem_map, List.mem_filter]
  constructor
  · rintro ⟨_, ⟨x, ⟨hx, hf⟩, rfl⟩, hs⟩
    dsimp only at hs
    split at hs
    case isFalse => cases hs
    case isTrue hstale =>
      have e : x = r := db.messages.eq_of_pk hx hr (Option.some.inj hs)
      subst e
      rw [vanished, hf, hstale]; rfl
  · intro h
    obtain ⟨hf, hstale⟩ := Bool.and_eq_true_iff.mp h
    exact ⟨_, ⟨r, ⟨hr, hf⟩, rfl⟩, by rw [if_pos hstale]⟩

/-- A reconcile soft-deletes exactly the vanished rows. -/
theorem rows_reconcileFolderDeletions (db : Db) (acc : AccountId) (f : FolderId) (us : List Uid) :
    (reconcileFolderDeletions db acc f us).2.messages.rows =
      db.messages.rows.map fun r =>
        if vanished acc f us r then { r with isDeleted := true } else r := by
  have hrows : (reconcileFolderDeletions db acc f us).2.messages.rows =
      db.messages.rows.map fun r =>
        if (vanishedIds db acc f us).contains r.id then { r with isDeleted := true } else r := by
    unfold reconcileFolderDeletions
    dsimp only
    split
    case isFalse => rfl
    case isTrue h =>
      have h' : vanishedIds db acc f us = [] := h
      rw [h']; simp
  rw [hrows]
  apply List.map_congr_left
  intro r hr
  have hc : (vanishedIds db acc f us).contains r.id = vanished acc f us r := by
    rw [Bool.eq_iff_iff, List.contains_iff_mem, mem_vanishedIds hr]
  rw [hc]

theorem find_reconcileFolderDeletions (db : Db) (acc : AccountId) (f : FolderId) (us : List Uid)
    (k : AccountId × Text) :
    (reconcileFolderDeletions db acc f us).2.messages.find k =
      (db.messages.find k).map fun r =>
        if vanished acc f us r then { r with isDeleted := true } else r := by
  have hkey : ∀ r : MessageRow,
      (if vanished acc f us r then { r with isDeleted := true } else r).key = r.key := by
    intro r
    split <;> rfl
  rw [KeyedTable.find, rows_reconcileFolderDeletions, List.find?_map]
  simp only [Function.comp_def, hkey, KeyedTable.find]

/-- A reconcile does nothing, or writes messages and recounts its folder. -/
theorem reconcileFolderDeletions_cases (db : Db) (acc : AccountId) (f : FolderId)
    (us : List Uid) :
    reconcileFolderDeletions db acc f us = (0, db) ∨
      ((reconcileFolderDeletions db acc f us).1 ≠ 0 ∧ ∃ messages,
        (reconcileFolderDeletions db acc f us).2 =
          updateFolderCountsInTx { db with messages := messages } f) := by
  unfold reconcileFolderDeletions
  dsimp only
  split
  case isTrue => exact .inl rfl
  case isFalse h => exact .inr ⟨fun e => h (List.length_eq_zero_iff.mp e), _, rfl⟩

/-! ## What each operation leaves alone -/

@[simp] theorem updateFolderCountsInTx_messages (db : Db) (f : FolderId) :
    (updateFolderCountsInTx db f).messages = db.messages := rfl

@[simp] theorem updateFolderCountsInTx_cursors (db : Db) (f : FolderId) :
    (updateFolderCountsInTx db f).cursors = db.cursors := rfl

@[simp] theorem saveCursorValueInTx_messages (db : Db) (acc : AccountId) (f : FolderId)
    (v : CursorValue) : (saveCursorValueInTx db acc f v).messages = db.messages := rfl

@[simp] theorem saveCursorInTx_messages (db : Db) (acc : AccountId) (f : FolderId)
    (c : SyncCursorInfo) : (saveCursorInTx db acc f c).messages = db.messages := rfl

@[simp] theorem upsertMessageInTx_cursors (db : Db) (acc : AccountId) (f : FolderId)
    (m : ImapMessage) : (upsertMessageInTx db acc f m).2.cursors = db.cursors := rfl

@[simp] theorem upsertMessages_cons (acc : AccountId) (f : FolderId) (db : Db) (m : ImapMessage)
    (ms : List ImapMessage) : (upsertMessages acc f db (m :: ms)).2 =
      (upsertMessages acc f (upsertMessageInTx db acc f m).2 ms).2 := rfl

@[simp] theorem upsertMessages_cursors (acc : AccountId) (f : FolderId) (db : Db)
    (ms : List ImapMessage) : (upsertMessages acc f db ms).2.cursors = db.cursors := by
  induction ms generalizing db with
  | nil => rfl
  | cons m ms ih => rw [upsertMessages_cons, ih, upsertMessageInTx_cursors]

/-! ## Lookups after an upsert -/

theorem ImapMessage.key_toRow (m : ImapMessage) (id : Nat) (acc : AccountId) (f : FolderId) :
    (m.toRow id acc f).key = some (acc, imapMessageExternalId f m.uid) := rfl

theorem mem_upsertMessageInTx (db : Db) (acc : AccountId) (f : FolderId) (m : ImapMessage)
    (r : MessageRow) :
    r ∈ (upsertMessageInTx db acc f m).2.messages.rows ↔
      (∃ x ∈ db.messages.rows, (if x.key = some (acc, imapMessageExternalId f m.uid) then
        applyFillInOnConflict (m.toRow db.newMessageId acc f) x else x) = r) ∨
      (db.messages.find (acc, imapMessageExternalId f m.uid) = none ∧
        r = m.toRow db.newMessageId acc f) :=
  db.messages.mem_upsert (m.toRow db.newMessageId acc f)
    (applyFillInOnConflict (m.toRow db.newMessageId acc f)) (fun _ => rfl) (fun _ => rfl)
    (fun _ x hx => db.newMessageId_fresh x hx) (m.key_toRow _ acc f) r

theorem find_upsertMessageInTx (db : Db) (acc : AccountId) (f : FolderId) (m : ImapMessage)
    (k : AccountId × Text) :
    (upsertMessageInTx db acc f m).2.messages.find k =
      if k = (acc, imapMessageExternalId f m.uid) then
        some ((db.messages.find (acc, imapMessageExternalId f m.uid)).elim
          (m.toRow db.newMessageId acc f) (applyFillInOnConflict (m.toRow db.newMessageId acc f)))
      else db.messages.find k :=
  db.messages.find_upsert (m.toRow db.newMessageId acc f)
    (applyFillInOnConflict (m.toRow db.newMessageId acc f)) (fun _ => rfl) (fun _ => rfl)
    (fun _ x hx => db.newMessageId_fresh x hx) (m.key_toRow _ acc f) k

theorem place_upsertMessageInTx (db : Db) (acc a : AccountId) (f : FolderId) (m : ImapMessage)
    (e : Text) :
    (upsertMessageInTx db acc f m).2.place a e =
      if a = acc ∧ e = imapMessageExternalId f m.uid then some ((db.place a e).getD (f, false))
      else db.place a e := by
  rw [Db.place, find_upsertMessageInTx]
  by_cases h : a = acc ∧ e = imapMessageExternalId f m.uid
  · obtain ⟨rfl, rfl⟩ := h
    rw [if_pos rfl, if_pos ⟨rfl, rfl⟩, Db.place]
    cases db.messages.find (a, imapMessageExternalId f m.uid) <;> rfl
  · rw [if_neg h, if_neg (by simpa using h), Db.place]

/-- A stored row keeps its folder and its deletion through an upsert; a new one gets the
batch's folder. -/
theorem place_upsertMessages (acc a : AccountId) (f : FolderId) (db : Db) (ms : List ImapMessage)
    (e : Text) :
    (upsertMessages acc f db ms).2.place a e =
      if a = acc ∧ e ∈ ms.map (fun m => imapMessageExternalId f m.uid) then
        some ((db.place a e).getD (f, false))
      else db.place a e := by
  induction ms generalizing db with
  | nil => simp [upsertMessages]
  | cons m ms ih =>
    rw [upsertMessages_cons, ih, place_upsertMessageInTx]
    by_cases ha : a = acc
    · by_cases he : e = imapMessageExternalId f m.uid
      · simp [ha, he]
      · simp [ha, he]
    · simp [ha]

theorem home_upsertMessages (acc a : AccountId) (f : FolderId) (db : Db) (ms : List ImapMessage)
    (e : Text) :
    (upsertMessages acc f db ms).2.home a e =
      if a = acc ∧ e ∈ ms.map (fun m => imapMessageExternalId f m.uid) then
        some ((db.home a e).getD f)
      else db.home a e := by
  rw [Db.home_eq_place, Db.home_eq_place, place_upsertMessages]
  split
  · cases db.place a e <;> rfl
  · rfl

theorem place_upsertMessages_uid (acc : AccountId) (f : FolderId) (db : Db)
    (ms : List ImapMessage) (u : Uid) :
    (upsertMessages acc f db ms).2.place acc (imapMessageExternalId f u) =
      if u ∈ ms.map ImapMessage.uid then
        some ((db.place acc (imapMessageExternalId f u)).getD (f, false))
      else db.place acc (imapMessageExternalId f u) := by
  rw [place_upsertMessages]
  congr 1
  simp [eq_comm]

/-! ## Lookups after a wipe, and the cursor -/

theorem place_clearFolderMessagesInTx (db : Db) (f : FolderId) (a : AccountId) (e : Text) :
    (clearFolderMessagesInTx db f).place a e = (db.place a e).filter fun q => q.1 ≠ f := by
  simp only [Db.place, clearFolderMessagesInTx, KeyedTable.find_deleteWhere]
  cases db.messages.find (a, e) with
  | none => rfl
  | some r =>
    by_cases h : r.folderId = f
    · simp [Option.filter, h]
    · simp [Option.filter, h]

theorem find_saveCursorValueInTx (db : Db) (acc : AccountId) (f : FolderId) (v : CursorValue)
    (k : AccountId × FolderId × CursorType) :
    (saveCursorValueInTx db acc f v).cursors.find k =
      if k = (acc, f, v.type) then some ⟨acc, f, v⟩ else db.cursors.find k := by
  have h := db.cursors.find_upsert ⟨acc, f, v⟩ (replaceCursor ⟨acc, f, v⟩)
    (replaceCursor_pk _) (fun c => congrArg some (replaceCursor_pk _ c))
    (cursor_fresh db.cursors _) (k := (acc, f, v.type)) rfl k
  refine h.trans ?_
  congr 1
  cases hf : db.cursors.find (acc, f, v.type) with
  | none => rfl
  | some c =>
    obtain ⟨_, hk⟩ := (db.cursors.find_eq_some_iff _ _).mp hf
    have hk' : c.pk = (⟨acc, f, v⟩ : CursorRow).pk := Option.some.inj hk
    rw [Option.elim_some, replaceCursor, if_pos hk']

@[simp] theorem loadCursor_saveCursorInTx (db : Db) (acc : AccountId) (f : FolderId)
    (c : SyncCursorInfo) : loadCursor (saveCursorInTx db acc f c) acc f = some c := by
  simp only [loadCursor, saveCursorInTx, find_saveCursorValueInTx, CursorValue.type, ↓reduceIte]

@[simp] theorem loadCursor_updateFolderCountsInTx (db : Db) (g : FolderId) (acc : AccountId)
    (f : FolderId) : loadCursor (updateFolderCountsInTx db g) acc f = loadCursor db acc f := rfl

/-! ## The batch transaction -/

/-- Lookup of a folder's own UID after a batch: wiped if the wipe was asked
for, then held by whoever held the id, else by the folder. -/
theorem place_persistImapFolderBatch (db : Db) (acc : AccountId) (f : FolderId)
    (ms : List ImapMessage) (c : SyncCursorInfo) (clear : Bool) (u : Uid) :
    (persistImapFolderBatch db acc f ms c clear).2.place acc (imapMessageExternalId f u) =
      let held := (db.place acc (imapMessageExternalId f u)).filter fun q =>
        !clear || decide (q.1 ≠ f)
      if u ∈ ms.map ImapMessage.uid then some (held.getD (f, false)) else held := by
  have h : (persistImapFolderBatch db acc f ms c clear).2.place acc (imapMessageExternalId f u) =
      (upsertMessages acc f (if clear then clearFolderMessagesInTx db f else db) ms).2.place acc
        (imapMessageExternalId f u) := rfl
  rw [h, place_upsertMessages_uid]
  cases clear with
  | false =>
    have e : (db.place acc (imapMessageExternalId f u)).filter
        (fun q => !false || decide (q.1 ≠ f)) = db.place acc (imapMessageExternalId f u) := by
      cases db.place acc (imapMessageExternalId f u) <;> rfl
    rw [e]; rfl
  | true => simp [place_clearFolderMessagesInTx]

@[simp] theorem loadCursor_persistImapFolderBatch (db : Db) (acc : AccountId) (f : FolderId)
    (ms : List ImapMessage) (c : SyncCursorInfo) (clear : Bool) :
    loadCursor (persistImapFolderBatch db acc f ms c clear).2 acc f = some c := by
  simp [persistImapFolderBatch]

end Lyra
