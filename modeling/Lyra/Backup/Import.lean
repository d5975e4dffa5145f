import Lyra.Backup.Tables
import Lyra.Spam.Judge
import Lyra.Lib.Merge

/-!
# Importing a backup

`backup/import.rs`: the accounts, folders and contacts of an archive that opens are merged into
an instance, each section under its own key.  The report is left out; a document, line or
statement that fails is passed over.

A statement fails only where it breaks a `UNIQUE` constraint.  Where the code asks for one
of several rows without an order it gets the first.  `HashMap` iteration is in any order.
-/

namespace Lyra.Backup

open Lyra.Lib

/-! ## What the importer is given -/

/-- The text functions and the hash. -/
structure ImportOps where
  text : TextOps
  sha256Hex : Bytes → Text

/-- One run: the encryption under the user's key. -/
structure ImportRun where
  encrypt : Text → Text

variable (ops : ImportOps)

/-! ## Accounts -/

/-- `insert_account`. -/
def insertAccount (run : ImportRun) (accounts : List AccountRow) (doc : AccountDoc)
    (email protocol : Text) : Option AccountRow :=
  doc.credential.map fun credential =>
    { id := newId (accounts.map AccountRow.id)
      displayName := doc.displayName
      emailAddress := email
      protocol := protocol
      authType := doc.authType.getD "password".toList
      credential := run.encrypt credential
      imapHost := doc.imapHost
      imapPort := doc.imapPort
      imapSecurity := doc.imapSecurity
      jmapBaseUrl := doc.jmapBaseUrl
      smtpHost := doc.smtpHost
      smtpPort := doc.smtpPort
      smtpSecurity := doc.smtpSecurity
      smtpAuthType := doc.smtpAuthType
      smtpCredential := doc.smtpCredential.map run.encrypt
      pimCredential := doc.pimCredential.map run.encrypt
      signature := doc.signature
      carddavUrl := doc.carddavUrl
      caldavUrl := doc.caldavUrl
      isActive := true
      syncEnabled := doc.syncEnabled.getD true
      receiveProtocol := doc.receiveProtocol.getD protocol
      sendProtocol := doc.sendProtocol.getD "smtp".toList }

def AccountDoc.mergeProtocol (doc : AccountDoc) : Text := doc.protocol.getD "imap".toList

/-- The merge key: protocol, and address up to case. -/
def sameAccount (protocol email : Text) (a : AccountRow) : Bool :=
  a.protocol == protocol && ops.text.toLowercase a.emailAddress == ops.text.toLowercase email

/-- What the loop of `merge_accounts` makes of a document: the account that it stands for, and the
table. -/
def mergeAccountDoc (run : ImportRun) (accounts : List AccountRow) (doc : AccountDoc) :
    Option AccountId × List AccountRow :=
  match doc.emailAddress with
  | none => (none, accounts)
  | some email =>
    match accounts.find? (sameAccount ops doc.mergeProtocol email) with
    | some found => (some found.id, accounts)
    | none =>
      match insertAccount run accounts doc email doc.mergeProtocol with
      | some row => (some row.id, accounts ++ [row])
      | none => (none, accounts)

/-- The loop; the rows it searches are those of the table. -/
def mergeAccountDocs (run : ImportRun) : Nat → List (Nat × AccountId) → List AccountRow →
    List (Option AccountDoc) → List (Nat × AccountId) × List AccountRow
  | _, idMap, accounts, [] => (idMap, accounts)
  | n, idMap, accounts, none :: docs => mergeAccountDocs run (n + 1) idMap accounts docs
  | n, idMap, accounts, some doc :: docs =>
    let (id, accounts) := mergeAccountDoc ops run accounts doc
    mergeAccountDocs run (n + 1) (idMap ++ id.toList.map (n, ·)) accounts docs

/-- The map from archive indices to accounts, and the table. -/
def mergeAccounts (run : ImportRun) (archive : Archive) (user : UserRow)
    (accounts : List AccountRow) : List (Nat × AccountId) × List AccountRow :=
  if user.dekReadable then mergeAccountDocs ops run 0 [] accounts archive.accounts
  else ([], accounts)

/-! ## Folders -/

structure ExistingFolder where
  id : FolderId
  externalId : Option Text
  name : Text
  parentId : Option FolderId
  deriving DecidableEq

def FolderRow.existing (r : FolderRow) : ExistingFolder := ⟨r.id, r.externalId, r.name, r.parentId⟩

def loadExistingFolders (folders : List FolderRow) (acc : AccountId) : List ExistingFolder :=
  (folders.filter fun r => r.accountId == acc).map FolderRow.existing

/-- The state of the merge of one account's folders; `known` is `local`. -/
structure FolderState where
  folders : List FolderRow
  known : List ExistingFolder
  map : List (Text × FolderId)

/-- `archive_id_by_external`: the last entry wins. -/
def archiveIdByExternal (entries : List FolderDoc) (externalId : Text) : Option Text :=
  (entries.filterMap fun f =>
    f.externalId.bind fun ext => f.id.map fun id => (ext, id)).reverse.lookup externalId

inductive ParentResolution
  | root
  | resolved (id : FolderId)
  | retry
  deriving DecidableEq

def resolveParent (entries : List FolderDoc) (s : FolderState) :
    Option Text → ParentResolution
  | none => .root
  | some parentExt =>
    match (archiveIdByExternal entries parentExt).bind fun id => s.map.lookup id with
    | some id => .resolved id
    | none =>
      match s.known.find? fun l => l.externalId == some parentExt with
      | some l => .resolved l.id
      | none => .retry

def FolderDoc.mergeName (f : FolderDoc) : Text := f.name.getD "(unnamed)".toList

/-- The external id, unless it is empty. -/
def FolderDoc.matchId (f : FolderDoc) : Option Text := f.externalId.filter (· ≠ [])

/-- A folder is matched by its external id, else by its name and parent. -/
def FolderDoc.matches (f : FolderDoc) (parent : Option FolderId) (l : ExistingFolder) : Bool :=
  match f.matchId with
  | some ext => l.externalId == some ext
  | none => l.name == f.mergeName && l.parentId == parent

/-- Every id that stands in the table. -/
def usedFolderIds (folders : List FolderRow) : List FolderId :=
  folders.map FolderRow.id ++ folders.filterMap FolderRow.parentId

/-- Whether `UNIQUE(account_id, external_id)` stops an insert. -/
def folderTaken (folders : List FolderRow) (acc : AccountId) (externalId : Option Text) : Bool :=
  externalId.isSome && folders.any fun r => r.accountId == acc && r.externalId == externalId

/-- `insert_folder`. -/
def insertFolder (acc : AccountId) (s : FolderState) (f : FolderDoc) (archiveId : Text)
    (parent : Option FolderId) (role : Option Text) : Option FolderState :=
  if folderTaken s.folders acc f.externalId then none
  else
    let row : FolderRow :=
      { id := newId (usedFolderIds s.folders)
        accountId := acc
        externalId := f.externalId
        name := f.mergeName
        parentId := parent
        role := role
        roleOverride := f.roleOverride
        sortOrder := f.sortOrder.getD 0 }
    some ⟨s.folders ++ [row], s.known ++ [row.existing], (archiveId, row.id) :: s.map⟩

/-- Match a folder under a parent, or insert it. -/
def matchOrInsert (acc : AccountId) (s : FolderState) (f : FolderDoc) (archiveId : Text)
    (parent : Option FolderId) (role : Option Text) : Option FolderState :=
  match s.known.find? (f.matches parent) with
  | some l => some { s with map := (archiveId, l.id) :: s.map }
  | none => insertFolder acc s f archiveId parent role

inductive FolderMerge
  | merged (s : FolderState)
  | retry
  | failed

/-- `merge_one_folder`; `roles` are the effective roles of the export. -/
def mergeOneFolder (acc : AccountId) (entries : List FolderDoc) (roles : Text → Option Text)
    (s : FolderState) (f : FolderDoc) : FolderMerge :=
  match f.id with
  | none => .failed
  | some archiveId =>
    let place (parent : Option FolderId) : FolderMerge :=
      match matchOrInsert acc s f archiveId parent (f.role.or (roles archiveId)) with
      | some s => .merged s
      | none => .failed
    match resolveParent entries s f.parentExternalId with
    | .root => place none
    | .resolved id => place (some id)
    | .retry => .retry

/-- `merge_one_folder_root`. -/
def mergeOneFolderRoot (acc : AccountId) (s : FolderState) (f : FolderDoc) : FolderState :=
  match f.id with
  | none => s
  | some archiveId => (matchOrInsert acc s f archiveId none f.role).getD s

/-- One round over the unresolved entries: what is still unresolved, and the state. -/
def mergePass (acc : AccountId) (entries : List FolderDoc) (roles : Text → Option Text) :
    FolderState → List FolderDoc → List FolderDoc × FolderState
  | s, [] => ([], s)
  | s, f :: rest =>
    match mergeOneFolder acc entries roles s f with
    | .merged s => mergePass acc entries roles s rest
    | .failed => mergePass acc entries roles s rest
    | .retry =>
      let (still, t) := mergePass acc entries roles s rest
      (f :: still, t)

theorem mergePass_sublist (acc : AccountId) (entries : List FolderDoc)
    (roles : Text → Option Text) (s : FolderState) (fs : List FolderDoc) :
    (mergePass acc entries roles s fs).1.Sublist fs := by
  induction fs generalizing s with
  | nil => exact List.Sublist.refl _
  | cons f rest ih =>
    unfold mergePass
    split
    · exact (ih _).cons f
    · exact (ih _).cons f
    · exact (ih _).cons_cons f

/-- The rounds; where none is resolved any more, the rest is put at the root. -/
def mergeRounds (acc : AccountId) (entries : List FolderDoc) (roles : Text → Option Text)
    (s : FolderState) (unresolved : List FolderDoc) : FolderState :=
  let next := mergePass acc entries roles s unresolved
  if _same : next.1.length = unresolved.length then next.1.foldl (mergeOneFolderRoot acc) next.2
  else mergeRounds acc entries roles next.2 next.1
termination_by unresolved.length
decreasing_by
  exact Nat.lt_of_le_of_ne (mergePass_sublist acc entries roles s unresolved).length_le _same

/-- The folders of one archive account. -/
def mergeAccountFolders (acc : AccountId) (entries : List FolderDoc) (roles : Text → Option Text)
    (folders : List FolderRow) : FolderState :=
  mergeRounds acc entries roles ⟨folders, loadExistingFolders folders acc, []⟩ entries

/-! ## Cards -/

/-- `str::lines`, without the CRs at the end of a line. -/
def bareLines (t : Text) : List Text :=
  let pieces := t.splitOn '\n'
  (if pieces.getLast? = some [] then pieces.dropLast else pieces).map fun line =>
    (line.reverse.dropWhile (· = '\r')).reverse

def eqIgnoreAsciiCase (a b : Text) : Bool := a.map Char.toLower == b.map Char.toLower

/-- The value of a property line `NAME:value` or `NAME;params:value`. -/
def cardLineValue (name line : Text) : Option Text :=
  if ':' ∈ line then
    let lhs := line.takeWhile (· ≠ ':')
    if eqIgnoreAsciiCase (lhs.takeWhile (· ≠ ';')) name then
      some (ops.text.trim (line.drop (lhs.length + 1)))
    else none
  else none

def cardProp (card name : Text) : Option Text := (bareLines card).findSome? (cardLineValue ops name)

def cardProps (card name : Text) : List Text :=
  ((bareLines card).filterMap (cardLineValue ops name)).filter (· ≠ [])

/-- The loop of `split_cards`; `cur` is the card that has begun. -/
def splitCardLines (first last : Text) : Option Text → List Text → List Text
  | _, [] => []
  | cur, line :: rest =>
    let cur := if eqIgnoreAsciiCase line first then some [] else cur
    let cur := cur.map fun c => c ++ line ++ ['\r', '\n']
    if eqIgnoreAsciiCase line last then cur.toList ++ splitCardLines first last none rest
    else splitCardLines first last cur rest

/-- `split_cards`. -/
def splitCards (text kind : Text) : List Text :=
  splitCardLines ("BEGIN:".toList ++ kind) ("END:".toList ++ kind) none (bareLines text)

/-- The key of a contact or an event: its UID, else its hash. -/
def cardKey (card : Text) : Text :=
  (cardProp ops card "UID".toList).getD ("sha256:".toList ++ ops.sha256Hex (utf8 card))

/-- The account that contacts or calendars go to: the first mapped account with the URL,
else the first mapped account. -/
def pickPimAccount (idMap : List (Nat × AccountId)) (accounts : List AccountRow)
    (url : AccountRow → Option Text) : Option AccountId :=
  match idMap.find? fun p => accounts.any fun a => a.id == p.2 && (url a).isSome with
  | some p => some p.2
  | none => idMap.head?.map Prod.snd

/-! ## Contacts -/

def importKey (key : Text) : Text := "import:".toList ++ key

/-- The row of `insert_contact`. -/
def importedContact (acc : AccountId) (contacts : List ContactRow) (card : Text) : ContactRow :=
  let emails := cardProps ops card "EMAIL".toList
  { id := newId (contacts.map ContactRow.id)
    accountId := acc
    externalId := some (importKey (cardKey ops card))
    vcardBlob := some card
    displayName := cardProp ops card "FN".toList
    emailAddresses := if emails = [] then none else some (jsonArray emails)
    photoPath := none }

def existingContactKeys (contacts : List ContactRow) (acc : AccountId) : List Text :=
  ((contacts.filter fun c => c.accountId == acc).filterMap ContactRow.vcardBlob).map (cardKey ops)

/-- Every card of the archive whose key no contact of the account has. -/
def mergeCards (acc : AccountId) (contacts : List ContactRow) (cards : List Text) :
    List ContactRow :=
  insertMissing (existingContactKeys ops contacts acc) (cardKey ops) (importedContact ops acc)
    contacts cards

def mergeContacts (archive : Archive) (idMap : List (Nat × AccountId)) (accounts : List AccountRow)
    (contacts : List ContactRow) : List ContactRow :=
  match archive.contacts, pickPimAccount idMap accounts AccountRow.carddavUrl with
  | some text, some acc => mergeCards ops acc contacts (splitCards text "VCARD".toList)
  | _, _ => contacts

end Lyra.Backup
