import Lyra.Backup.Mbox
import Lyra.Store.Messages

/-!
# Backups: tables and archives

The tables that a backup is read from and merged into, with the columns the two sides read
or write, and the content of an archive as the importer decodes it: JSON documents by the
fields that are read, with `none` for a field that is absent or of another type.

The instance has one user (`0005_single_user_guard`); tables are lists of rows in the order
of their creation.
-/

namespace Lyra.Backup

open Lyra.Lib

/-! ## Tables -/

structure UserRow where
  /-- Whether the user's data key can be unwrapped. -/
  dekReadable : Bool
  deriving DecidableEq

structure AccountRow where
  id : AccountId
  displayName : Option Text
  emailAddress : Text
  protocol : Text
  authType : Text
  credential : Text
  imapHost : Option Text
  imapPort : Option Int
  imapSecurity : Option Text
  jmapBaseUrl : Option Text
  smtpHost : Option Text
  smtpPort : Option Int
  smtpSecurity : Option Text
  smtpAuthType : Option Text
  smtpCredential : Option Text
  pimCredential : Option Text
  signature : Option Text
  carddavUrl : Option Text
  caldavUrl : Option Text
  isActive : Bool
  syncEnabled : Bool
  receiveProtocol : Text
  sendProtocol : Text
  deriving DecidableEq

structure FolderRow where
  id : FolderId
  accountId : AccountId
  externalId : Option Text
  name : Text
  parentId : Option FolderId
  role : Option Text
  roleOverride : Option Text
  sortOrder : Int
  deriving DecidableEq

structure ContactRow where
  id : Text
  accountId : AccountId
  externalId : Option Text
  vcardBlob : Option Text
  displayName : Option Text
  emailAddresses : Option Text
  photoPath : Option Text
  deriving DecidableEq

/-- A new id: a word that stands nowhere in the list. -/
def newId (used : List Text) : Text := freshWord '0' used

theorem newId_not_mem (used : List Text) : newId used ∉ used := freshWord_not_mem '0' used

/-! ## Archives -/

/-- An entry of the folder list of an account. -/
structure FolderDoc where
  id : Option Text
  externalId : Option Text
  name : Option Text
  parentExternalId : Option Text
  role : Option Text
  roleOverride : Option Text
  /-- The sort order where it fits an `i32`. -/
  sortOrder : Option Int
  deriving DecidableEq

/-- `accounts/<n>.json`; the credentials are decrypted. -/
structure AccountDoc where
  displayName : Option Text
  emailAddress : Option Text
  protocol : Option Text
  authType : Option Text
  imapHost : Option Text
  imapPort : Option Int
  imapSecurity : Option Text
  jmapBaseUrl : Option Text
  smtpHost : Option Text
  smtpPort : Option Int
  smtpSecurity : Option Text
  smtpAuthType : Option Text
  signature : Option Text
  carddavUrl : Option Text
  caldavUrl : Option Text
  syncEnabled : Option Bool
  receiveProtocol : Option Text
  sendProtocol : Option Text
  credential : Option Text
  smtpCredential : Option Text
  pimCredential : Option Text
  folders : Option (List FolderDoc)
  deriving DecidableEq

/-- The files of an archive that opens. -/
structure Archive where
  /-- `none` is a document that does not parse. -/
  accounts : List (Option AccountDoc)
  contacts : Option Text

end Lyra.Backup
