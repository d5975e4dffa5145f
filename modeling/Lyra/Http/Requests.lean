import Lyra.Store.JmapMessages

/-!
# Requests on a message

The handlers that act on one message row: patch (read, starred, labels), move to
a folder or to a role, destroy, discard and replace a draft.  For an IMAP row
each selects the mailbox of the row's folder and names the UID read from the
row's external id; only after the server accepted the command is the row
written and are the counters refreshed.

`Outcome` records the commands that reached the server together with the result.
-/

namespace Lyra

open Lyra.Lib

/-! ## Labels -/

def keywordPrefix : Text := "label-".toList

def maxLabelLen : Nat := 40

/-- `sanitize_label`'s loop; `lastDash` suppresses leading and repeated dashes. -/
def slugChars : Bool → Text → Text
  | _, [] => []
  | lastDash, c :: s =>
    if c.isLower || c.isDigit then c :: slugChars false s
    else if c.isUpper then c.toLower :: slugChars false s
    else if (c = '-' || c = '_' || c = ' ') && !lastDash then '-' :: slugChars true s
    else slugChars lastDash s

def trimEndDashes (s : Text) : Text := (s.reverse.dropWhile (· = '-')).reverse

/-- Slugify one raw label; nothing usable gives `none`. -/
def sanitizeLabel (raw : Text) : Option Text :=
  let slug := (trimEndDashes (slugChars true raw)).take maxLabelLen
  let slug := trimEndDashes (slug.dropWhile (· = '-'))
  if slug = [] then none else some slug

/-- Sanitize a request payload: dedupe in order, cap the count. -/
def sanitizeLabels (raw : List Text) : List Text :=
  ((raw.filterMap sanitizeLabel).foldl
    (fun out slug => if slug ∈ out then out else out ++ [slug]) []).take maxLabels

def labelKeyword (label : Text) : Text := keywordPrefix ++ label

/-- Keywords to add and to remove for a label replacement. -/
def labelDiff (old next : List Text) : List Text × List Text :=
  ((next.filter fun l => l ∉ old).map labelKeyword,
    (old.filter fun l => l ∉ next).map labelKeyword)

/-! ## The loaded row -/

inductive Protocol
  | imap
  | jmap
  | other (name : Text)
  deriving DecidableEq, Repr

def FolderRow.effectiveRole (f : FolderRow) : Option Text := f.roleOverride.or f.role

/-- A live message joined with its folder. -/
structure LoadedRow where
  row : MessageRow
  folderName : Text
  folderRole : Option Text

/-- `load_message_row`. -/
def loadMessageRow (db : Db) (id : Nat) : Except SyncError LoadedRow :=
  match db.messages.rows.find? fun r => r.id == id && !r.isDeleted with
  | none => .error .messageNotFound
  | some r =>
    match db.folders.rows.find? fun f => f.id == r.folderId with
    | none => .error .messageNotFound
    | some f =>
      match f.externalId with
      | none => .error .database
      | some name => .ok ⟨r, name, f.effectiveRole⟩

/-! ## Server commands -/

inductive ServerOp
  | addFlags (flags : List Text)
  | removeFlags (flags : List Text)
  | moveUid (destination : Text)
  | deleteUid
  deriving DecidableEq, Repr

/-- A command for one UID of the selected mailbox. -/
structure ImapCommand where
  mailbox : Text
  uid : Uid
  op : ServerOp
  deriving DecidableEq, Repr

/-- The client sees success, or an error that does not tell whether the command
took effect. -/
inductive Reply
  | ok
  | failed (applied : Bool)
  deriving DecidableEq, Repr

/-- What the servers answer during one request. -/
structure Replies where
  connected : Bool
  imap : List Reply
  jmap : Bool

structure Outcome (α : Type) where
  issued : List (ImapCommand × Reply)
  result : Except SyncError α

/-- Issue commands in order; the first failure of one that is not best-effort ends
the request.  Replies that run out are a lost connection. -/
def issue : List (ImapCommand × Bool) → List Reply → List (ImapCommand × Reply) × Bool
  | [], _ => ([], true)
  | (_, bestEffort) :: cs, [] => if bestEffort then issue cs [] else ([], false)
  | (c, bestEffort) :: cs, r :: rs =>
    if r = .ok || bestEffort then
      let (done, fine) := issue cs rs
      ((c, r) :: done, fine)
    else ([(c, r)], false)

/-- The IMAP branch of a handler: read the UID, connect and select, issue the
commands; `write` is the database after the local writes. -/
def imapBranch (loaded : LoadedRow) (replies : Replies)
    (commands : Uid → List (ImapCommand × Bool)) (write : Db) : Outcome Db :=
  match parseImapUid loaded.row.externalId with
  | .error e => ⟨[], .error e⟩
  | .ok uid =>
    if replies.connected then
      let (issued, fine) := issue (commands uid) replies.imap
      ⟨issued, if fine then .ok write else .error .imap⟩
    else ⟨[], .error .imap⟩

/-- The JMAP branch of a handler. -/
def jmapBranch (loaded : LoadedRow) (replies : Replies) (missing : String) (write : Db) :
    Outcome Db :=
  match loaded.row.externalId with
  | none => ⟨[], .error (.invalidInput missing)⟩
  | some _ => ⟨[], if replies.jmap then .ok write else .error .jmap⟩

def unsupportedProtocol : SyncError := .invalidInput "unsupported receive protocol"

/-! ## Patch -/

structure PatchMessageRequest where
  isRead : Option Bool := none
  isStarred : Option Bool := none
  labels : Option (List Text) := none
  deriving Repr

/-- The flag command for one patched Boolean, when it changes the stored value. -/
def flagCommand (loaded : LoadedRow) (uid : Uid) (flag : String) (wanted : Option Bool)
    (stored : Bool) : List (ImapCommand × Bool) :=
  match wanted with
  | none => []
  | some b =>
    if b && !stored then [(⟨loaded.folderName, uid, .addFlags [flag.toList]⟩, false)]
    else if !b && stored then [(⟨loaded.folderName, uid, .removeFlags [flag.toList]⟩, false)]
    else []

/-- Keyword pushes of a label patch are best-effort. -/
def labelCommands (loaded : LoadedRow) (uid : Uid) (old : List Text) (next : Option (List Text)) :
    List (ImapCommand × Bool) :=
  match next with
  | none => []
  | some next =>
    (labelDiff old next).1.map (fun k => (⟨loaded.folderName, uid, .addFlags [k]⟩, true)) ++
      (labelDiff old next).2.map (fun k => (⟨loaded.folderName, uid, .removeFlags [k]⟩, true))

/-- The row update of a patch. -/
def patchRow (body : PatchMessageRequest) (next : Option (List Text)) (r : MessageRow) :
    MessageRow :=
  { r with
    isRead := body.isRead.getD r.isRead
    isStarred := body.isStarred.getD r.isStarred
    labels := match next with
      | some next => labelsJson next
      | none => r.labels }

/-- Update the row with this id. -/
def updateRow (db : Db) (id : Nat) (f : MessageRow → MessageRow)
    (hid : ∀ r, (f r).id = r.id) (hkey : ∀ r, (f r).key = r.key) : Db :=
  { db with messages := db.messages.updateWhere (fun r => r.id == id) f hid hkey }

theorem mem_updateRow {db : Db} {id : Nat} {f : MessageRow → MessageRow}
    {hid : ∀ r, (f r).id = r.id} {hkey : ∀ r, (f r).key = r.key} {r' : MessageRow}
    (h : r' ∈ (updateRow db id f hid hkey).messages.rows) :
    ∃ r ∈ db.messages.rows, (r.id = id ∧ r' = f r) ∨ (r.id ≠ id ∧ r' = r) := by
  obtain ⟨r, hr, rfl⟩ := (KeyedTable.mem_updateWhere db.messages _ f hid hkey r').mp h
  refine ⟨r, hr, ?_⟩
  split
  · rename_i e
    exact .inl ⟨beq_iff_eq.mp e, rfl⟩
  · rename_i e
    exact .inr ⟨fun h => e (beq_iff_eq.mpr h), rfl⟩

/-- `patch_message`.  `decodeLabels` reads a stored JSON array. -/
def patchMessage (decodeLabels : Text → Option (List Text)) (protocol : Protocol) (db : Db)
    (id : Nat) (body : PatchMessageRequest) (replies : Replies) : Outcome Db :=
  match loadMessageRow db id with
  | .error e => ⟨[], .error e⟩
  | .ok loaded =>
    if body.isRead.isNone && body.isStarred.isNone && body.labels.isNone then
      ⟨[], .error (.invalidInput "provide isRead, isStarred, and/or labels")⟩
    else
      let old := (loaded.row.labels.bind decodeLabels).getD []
      let next := body.labels.map sanitizeLabels
      let write := updateFolderCountsInTx
        (updateRow db loaded.row.id (patchRow body next) (fun _ => rfl) (fun _ => rfl))
        loaded.row.folderId
      if body.isRead.isNone && body.isStarred.isNone then ⟨[], .ok write⟩
      else
        match protocol with
        | .imap =>
          imapBranch loaded replies (fun uid =>
            flagCommand loaded uid "\\Seen" body.isRead loaded.row.isRead ++
              flagCommand loaded uid "\\Flagged" body.isStarred loaded.row.isStarred ++
              labelCommands loaded uid old next) write
        | .jmap => jmapBranch loaded replies "JMAP message has no server id" write
        | .other _ => ⟨[], .ok write⟩

/-! ## Moves -/

/-- The local writes of a move: the folder column, then both folders' counters. -/
def writeMove (db : Db) (r : MessageRow) (dest : FolderId) : Db :=
  updateFolderCountsInTx
    (updateFolderCountsInTx
      (updateRow db r.id (fun x => { x with folderId := dest }) (fun _ => rfl) (fun _ => rfl))
      r.folderId)
    dest

/-- `apply_message_move`. -/
def applyMessageMove (protocol : Protocol) (db : Db) (loaded : LoadedRow) (dest : FolderId)
    (destExternal : Option Text) (destName : Text) (replies : Replies) : Outcome Db :=
  let write := writeMove db loaded.row dest
  match protocol with
  | .imap =>
    imapBranch loaded replies (fun uid => [(⟨loaded.folderName, uid, .moveUid destName⟩, false)])
      write
  | .jmap =>
    match loaded.row.externalId, destExternal with
    | none, _ => ⟨[], .error (.invalidInput "JMAP message has no server id")⟩
    | some _, none => ⟨[], .error (.invalidInput "JMAP target folder has no server id")⟩
    | some _, some _ => jmapBranch loaded replies "JMAP message has no server id" write
  | .other _ => ⟨[], .error unsupportedProtocol⟩

def FolderRow.wireName (f : FolderRow) : Text := f.externalId.getD f.name

/-- `move_message`: to a folder of the same account. -/
def moveMessage (protocol : Protocol) (db : Db) (id : Nat) (folder : FolderId)
    (replies : Replies) : Outcome Db :=
  match loadMessageRow db id with
  | .error e => ⟨[], .error e⟩
  | .ok loaded =>
    match db.folders.rows.find? fun f => f.id == folder with
    | none => ⟨[], .error .messageNotFound⟩
    | some dest =>
      if dest.accountId ≠ loaded.row.accountId then
        ⟨[], .error (.invalidInput
          "cross-account moves are not supported; pick a folder of the same account")⟩
      else if dest.id = loaded.row.folderId then ⟨[], .ok db⟩
      else applyMessageMove protocol db loaded dest.id dest.externalId dest.wireName replies

/-- The local soft delete and its count refresh. -/
def softDeleteRow (db : Db) (r : MessageRow) : Db :=
  updateFolderCountsInTx
    (updateRow db r.id (fun x => { x with isDeleted := true }) id_softDeleted key_softDeleted)
    r.folderId

/-- The account's folder for a role with the least sort order. -/
def roleFolder (db : Db) (acc : AccountId) (role : Text) : Option FolderRow :=
  (db.folders.rows.filter fun f => f.accountId == acc && decide (f.effectiveRole = some role)).foldl
    (fun best f =>
      match best with
      | none => some f
      | some b => if f.sortOrder < b.sortOrder then some f else some b) none

/-- `move_message_to_role` (trash, archive, spam): without a folder for the role the
message is soft-deleted locally.  The destination may be the row's own folder. -/
def moveMessageToRole (protocol : Protocol) (db : Db) (id : Nat) (role : Text)
    (replies : Replies) : Outcome Db :=
  match loadMessageRow db id with
  | .error e => ⟨[], .error e⟩
  | .ok loaded =>
    match roleFolder db loaded.row.accountId role with
    | none => ⟨[], .ok (softDeleteRow db loaded.row)⟩
    | some dest =>
      applyMessageMove protocol db loaded dest.id dest.externalId dest.wireName replies

/-! ## Destroy and drafts -/

/-- Delete the message on the server, then soft-delete the row. -/
def deleteServerSide (protocol : Protocol) (db : Db) (loaded : LoadedRow) (missing : String)
    (replies : Replies) : Outcome Db :=
  let write := softDeleteRow db loaded.row
  match protocol with
  | .imap =>
    imapBranch loaded replies (fun uid => [(⟨loaded.folderName, uid, .deleteUid⟩, false)]) write
  | .jmap => jmapBranch loaded replies missing write
  | .other _ => ⟨[], .error unsupportedProtocol⟩

/-- `destroy_row_server_side`. -/
def destroyRowServerSide (protocol : Protocol) (db : Db) (id : Nat) (replies : Replies) :
    Outcome Db :=
  match loadMessageRow db id with
  | .error e => ⟨[], .error e⟩
  | .ok loaded => deleteServerSide protocol db loaded "JMAP message has no server id" replies

/-- `discard_draft`. -/
def discardDraft (protocol : Protocol) (db : Db) (id : Nat) (replies : Replies) : Outcome Db :=
  match loadMessageRow db id with
  | .error e => ⟨[], .error e⟩
  | .ok loaded =>
    if loaded.folderRole ≠ some "drafts".toList then
      ⟨[], .error (.invalidInput "message is not a draft")⟩
    else deleteServerSide protocol db loaded "JMAP draft has no server id" replies

/-- A locally authored draft as `upsert_jmap_draft_row` stores it. -/
structure DraftContent where
  messageIdHeader : Option Text
  subject : Text
  fromAddress : Text
  toAddresses : Text
  bodyText : Text
  bodyHtml : Option Text

/-- `upsert_jmap_draft_row`: refresh the live row of this server id, or insert one;
an id that a soft-deleted row holds violates the unique key. -/
def upsertJmapDraftRow (db : Db) (acc : AccountId) (folder : FolderId) (serverId : Text)
    (content : DraftContent) : Except SyncError Db :=
  match db.messages.find (acc, serverId) with
  | some r =>
    if r.isDeleted then .error .database
    else
      .ok (updateRow db r.id (fun x =>
        { x with
          subject := some content.subject
          bodyText := some content.bodyText
          bodyHtml := content.bodyHtml }) (fun _ => rfl) (fun _ => rfl))
  | none =>
    let row : MessageRow :=
      { id := db.newMessageId
        accountId := acc
        folderId := folder
        externalId := some serverId
        messageIdHeader := some (content.messageIdHeader.getD [])
        subject := some content.subject
        fromAddress := some content.fromAddress
        toAddresses := some content.toAddresses
        bodyText := some content.bodyText
        snippet := some (content.bodyText.take 120)
        isDraft := true }
    .ok (updateFolderCountsInTx
      { db with
        messages := db.messages.upsert row (fun x => x) (fun _ => rfl) (fun _ => rfl)
          (fun _ x hx => db.newMessageId_fresh x hx) }
      folder)

/-! ## What a request leaves behind -/

theorem loadMessageRow_id {db : Db} {id : Nat} {loaded : LoadedRow}
    (h : loadMessageRow db id = .ok loaded) : loaded.row.id = id := by
  unfold loadMessageRow at h
  split at h
  case h_1 => cases h
  case h_2 r hr =>
    have hr := List.find?_some hr
    split at h
    case h_1 => cases h
    case h_2 =>
      split at h
      case h_1 => cases h
      case h_2 => cases h; simp at hr; exact hr.1

theorem loadMessageRow_mem {db : Db} {id : Nat} {loaded : LoadedRow}
    (h : loadMessageRow db id = .ok loaded) : loaded.row ∈ db.messages.rows := by
  unfold loadMessageRow at h
  split at h
  case h_1 => cases h
  case h_2 r hr =>
    split at h
    case h_1 => cases h
    case h_2 =>
      split at h
      case h_1 => cases h
      case h_2 => cases h; exact List.mem_of_find?_eq_some hr

theorem imapBranch_result {loaded : LoadedRow} {replies : Replies}
    {commands : Uid → List (ImapCommand × Bool)} {write db' : Db}
    (h : (imapBranch loaded replies commands write).result = .ok db') : db' = write := by
  unfold imapBranch at h
  split at h
  · cases h
  · split at h
    · dsimp only at h
      split at h
      · cases h; rfl
      · cases h
    · cases h

theorem jmapBranch_result {loaded : LoadedRow} {replies : Replies} {missing : String}
    {write db' : Db} (h : (jmapBranch loaded replies missing write).result = .ok db') :
    db' = write := by
  unfold jmapBranch at h
  split at h
  · cases h
  · dsimp only at h
    split at h
    · cases h; rfl
    · cases h

theorem applyMessageMove_result {protocol : Protocol} {db db' : Db} {loaded : LoadedRow}
    {dest : FolderId} {destExternal : Option Text} {destName : Text} {replies : Replies}
    (h : (applyMessageMove protocol db loaded dest destExternal destName replies).result = .ok db') :
    db' = writeMove db loaded.row dest := by
  unfold applyMessageMove at h
  cases protocol with
  | imap => exact imapBranch_result h
  | jmap =>
    dsimp only at h
    split at h
    · cases h
    · cases h
    · exact jmapBranch_result h
  | other _ => cases h

theorem deleteServerSide_result {protocol : Protocol} {db db' : Db} {loaded : LoadedRow}
    {missing : String} {replies : Replies}
    (h : (deleteServerSide protocol db loaded missing replies).result = .ok db') :
    db' = softDeleteRow db loaded.row := by
  unfold deleteServerSide at h
  cases protocol with
  | imap => exact imapBranch_result h
  | jmap => exact jmapBranch_result h
  | other _ => cases h

end Lyra
