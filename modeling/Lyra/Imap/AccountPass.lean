import Lyra.Imap.FolderPass
import Lyra.Store.JmapMessages
import Mathlib.Data.List.Sort

/-!
# An account's IMAP sync run

`run_imap_sync` as a whole: connect, LIST, upsert the folders, parents first, and pass
over them one by one.  As for one folder, everything the run meets is an argument
(`AccountReplies`), so a run interrupted anywhere is a run whose next answer fails.

The run records its folder passes (`PassRecord`); nothing is read from the record.
-/

namespace Lyra

open Lyra.Lib

/-! ## Mailboxes -/

/-- A mailbox as LIST reports it. -/
structure ImapFolder where
  name : Text
  delimiter : Option Text
  attributes : List Text
  deriving DecidableEq, Repr

/-- The text functions the folder columns are derived with: the mailbox-name decoder
and the Unicode class of alphanumeric characters. -/
structure MailboxNames where
  decodeMailboxName : Text → Text
  isAlphanumeric : Char → Bool

/-- `str::rsplit_once`. -/
def rsplitOnce (delim : Text) : Text → Option (Text × Text)
  | [] => if delim.isPrefixOf [] then some ([], []) else none
  | c :: s =>
    match rsplitOnce delim s with
    | some (parent, leaf) => some (c :: parent, leaf)
    | none => if delim.isPrefixOf (c :: s) then some ([], (c :: s).drop delim.length) else none

/-- `str::matches(delim).count()` after skipping `k` characters. -/
def countMatches (delim : Text) : Nat → Text → Nat
  | _, [] => 0
  | k + 1, _ :: s => countMatches delim k s
  | 0, c :: s =>
    if delim.isPrefixOf (c :: s) then 1 + countMatches delim (delim.length - 1) s
    else countMatches delim 0 s

/-- Split a wire mailbox path into parent and leaf. -/
def splitImapFolderPath (wireName : Text) (delimiter : Option Text) : Option Text × Text :=
  match delimiter.filter (· ≠ []) with
  | none => (none, wireName)
  | some delim =>
    match rsplitOnce delim wireName with
    | none => (none, wireName)
    | some (parent, leaf) => if parent = [] then (none, leaf) else (some parent, leaf)

/-- Depth of a mailbox path; parents come first. -/
def imapFolderDepth (wireName : Text) (delimiter : Option Text) : Nat :=
  match delimiter.filter (· ≠ []) with
  | none => 0
  | some delim => countMatches delim 0 wireName

section Names

variable (names : MailboxNames)

def imapFolderDisplayName (wireName : Text) (delimiter : Option Text) : Text :=
  names.decodeMailboxName (splitImapFolderPath wireName delimiter).2

/-- SPECIAL-USE attribute suffixes and their roles, in the order they are tried. -/
def specialUseSuffixes : List (String × String) :=
  [("archive", "archive"), ("all", "archive"), ("drafts", "drafts"), ("junk", "spam"),
    ("sent", "sent"), ("trash", "trash")]

/-- The folder role of the first attribute that names one. -/
def specialUseRole (attributes : List Text) : Option Text :=
  attributes.findSome? fun attr =>
    let token := lowercase (attr.filter names.isAlphanumeric)
    (specialUseSuffixes.find? fun s => s.1.toList.isSuffixOf token).map fun s => s.2.toList

/-- `upsert_folder` for a listed mailbox. -/
def upsertListedFolder (db : Db) (acc : AccountId) (folder : ImapFolder) : Db :=
  let displayName := imapFolderDisplayName names folder.name folder.delimiter
  upsertFolder db acc folder.name displayName
    ((specialUseRole names folder.attributes).or (inferFolderRole displayName))
    (splitImapFolderPath folder.name folder.delimiter).1

end Names

/-! ## The run -/

/-- What a run meets: the connection, the mailbox list, whether each folder's upsert and
lookup succeed, and what each folder's pass meets. -/
structure AccountReplies where
  connect : Except SyncError Unit
  list : Except ImapError (List ImapFolder)
  upsertTx : Nat → Bool
  lookup : Nat → Bool
  folder : Nat → FolderReplies

/-- One folder's pass within a run. -/
structure PassRecord where
  folder : FolderId
  replies : FolderReplies
  before : Db
  after : Db

/-- The running state of a run. -/
structure AccountRun where
  db : Db
  passes : List PassRecord := []
  new : Nat := 0
  updated : Nat := 0
  deleted : Nat := 0

def AccountRun.record (s : AccountRun) (f : FolderId) (r : FolderReplies) (out : PassState) :
    AccountRun where
  db := out.db
  passes := s.passes ++ [⟨f, r, s.db, out.db⟩]
  new := s.new + out.new
  updated := s.updated + out.updated
  deleted := s.deleted + out.deleted

/-- Hierarchy placeholders cannot be selected. -/
def ImapFolder.noselect (folder : ImapFolder) : Bool :=
  folder.attributes.any (containsText "Noselect".toList)

/-- Shallow mailboxes first, otherwise in the server's order. -/
def sortByDepth (folders : List ImapFolder) : List ImapFolder :=
  folders.insertionSort fun a b =>
    imapFolderDepth a.name a.delimiter ≤ imapFolderDepth b.name b.delimiter

/-- Upsert the listed folders; the Boolean says that all were. -/
def upsertFolders (names : MailboxNames) (acc : AccountId) (r : AccountReplies) :
    Nat → Db → List ImapFolder → Bool × Db
  | _, db, [] => (true, db)
  | k, db, folder :: rest =>
    if r.upsertTx k then upsertFolders names acc r (k + 1) (upsertListedFolder names db acc folder) rest
    else (false, db)

/-- The folder loop. -/
def syncFolders (acc : AccountId) (r : AccountReplies) :
    Nat → AccountRun → List ImapFolder → Except SyncError Unit × AccountRun
  | _, s, [] => (.ok (), s)
  | k, s, folder :: rest =>
    if folder.noselect then syncFolders acc r (k + 1) s rest
    else if r.lookup k then
      match findFolderId s.db acc folder.name with
      | none => (.error .database, s)
      | some f =>
        let out := folderPass s.db acc f (r.folder k)
        let s' := s.record f (r.folder k) out.2
        match out.1 with
        | .done | .skipped => syncFolders acc r (k + 1) s' rest
        -- The session is logged out and the error reported.
        | .poisoned _ => (.error .imap, s')
        | .failed e => (.error e, s')
    else (.error .database, s)

/-- `run_imap_sync`. -/
def runImapSync (names : MailboxNames) (db : Db) (acc : AccountId) (r : AccountReplies) :
    Except SyncError SyncResponse × AccountRun :=
  match r.connect with
  | .error e => (.error e, ⟨db, [], 0, 0, 0⟩)
  | .ok () =>
    match r.list with
    | .error _ => (.error .imap, ⟨db, [], 0, 0, 0⟩)
    | .ok listed =>
      let folders := sortByDepth listed
      match upsertFolders names acc r 0 db folders with
      | (false, db') => (.error .database, ⟨db', [], 0, 0, 0⟩)
      | (true, db') =>
        match syncFolders acc r 0 ⟨db', [], 0, 0, 0⟩ folders with
        | (.error e, s) => (.error e, s)
        | (.ok (), s) => (.ok ⟨folders.length, s.new, s.updated, s.deleted⟩, s)

/-! ## The rules for passes and runs -/

/-- A relation that the transactions of a pass keep. -/
structure KeptByPass (acc : AccountId) (R : Db → Db → Prop) : Prop where
  /-- Folder rows and cursors do not matter. -/
  frame : ∀ db db', db'.messages = db.messages → R db db'
  trans : ∀ db₁ db₂ db₃, R db₁ db₂ → R db₂ db₃ → R db₁ db₃
  persist : ∀ db f ms c clear, R db (persistImapFolderBatch db acc f ms c clear).2
  repair : ∀ db f ms, R db (repairImapMessages db acc f ms)
  reconcile : ∀ db f us, R db (reconcileFolderDeletions db acc f us).2

section Pass

variable {acc : AccountId} {R : Db → Db → Prop} (h : KeptByPass acc R) {f : FolderId}
  {r : FolderReplies}
include h

theorem KeptByPass.refl (db : Db) : R db db := h.frame _ _ rfl

theorem KeptByPass.passPrelude (db : Db) : R db (passPrelude db acc f r).db := by
  have hrepair : R db (repairFolderMojibake db acc f r) := by
    unfold repairFolderMojibake
    dsimp only
    split
    · exact h.refl _
    · split
      · exact h.refl _
      · split
        · exact h.refl _
        · exact h.repair _ _ _
  unfold Lyra.passPrelude reconcileStep
  split
  · exact hrepair
  · split
    · exact h.trans _ _ _ hrepair (h.reconcile _ _ _)
    · exact hrepair

theorem KeptByPass.commit (s : PassState) (ms : List ImapMessage) (c : SyncCursorInfo)
    (clear : Bool) : R s.db (s.commit acc f ms c clear).db := h.persist s.db f ms c clear

theorem KeptByPass.chunk (s : ChunkState) (p : PassPlan) (ms : List ImapMessage) :
    R s.pass.db (s.persist acc f p ms).pass.db := h.commit _ _ _ _

theorem KeptByPass.chunkLoop (p : PassPlan) (k : Nat) (batches : List (List Uid)) (s : ChunkState) :
    R s.pass.db (chunkLoop acc f r p k batches s).1.pass.db := by
  induction batches generalizing k s with
  | nil => exact h.refl _
  | cons chunk rest ih =>
    unfold Lyra.chunkLoop
    split
    · exact ih _ _
    · split
      · exact h.trans _ _ _ (h.chunk _ _ _) (ih _ _)
      · exact h.refl _
    · split
      · exact h.refl _
      · exact h.refl _

theorem KeptByPass.finishFolder (p : PassPlan) (ms : List ImapMessage) (s : ChunkState) :
    R s.pass.db (finishFolder acc f r p ms s).2.db := by
  unfold Lyra.finishFolder
  split
  · split
    · split
      · exact h.commit _ _ _ _
      · exact h.refl _
    · split
      · split
        · exact h.commit _ _ _ _
        · exact h.refl _
      · exact h.refl _
  · split
    · exact h.commit _ _ _ _
    · exact h.refl _

theorem KeptByPass.folderPass (db : Db) (f : FolderId) (r : FolderReplies) :
    R db (folderPass db acc f r).2.db := by
  unfold Lyra.folderPass
  split
  · exact h.refl _
  · rename_i sel _
    have hprelude := h.passPrelude (f := f) (r := r) db
    dsimp only
    split
    · refine h.trans _ _ _ hprelude ?_
      unfold syncMessages
      split
      · exact h.refl _
      · rename_i newUids _
        split
        · exact h.refl _
        · rename_i messages _
          have hloop := h.chunkLoop (f := f) (r := r)
            (passPlan (loadCursor (Lyra.passPrelude db acc f r).db acc f) sel r.condstore) 0
            (chunks metadataChunk (fetchUids newUids messages))
            ⟨Lyra.passPrelude db acc f r, (passPlan (loadCursor (Lyra.passPrelude db acc f r).db acc f)
              sel r.condstore).chunkCursor, false⟩
          split
          · rename_i s' exit hs
            rw [hs] at hloop
            exact hloop
          · rename_i s' hs
            rw [hs] at hloop
            exact h.trans _ _ _ hloop (h.finishFolder _ _ _)
    · exact hprelude

end Pass

section Rule

variable {names : MailboxNames} {acc : AccountId}

/-- What every folder upsert keeps, the upserts of a run keep. -/
theorem upsertFolders_rule {inv : Db → Prop}
    (hupsert : ∀ db folder, inv db → inv (upsertListedFolder names db acc folder))
    (r : AccountReplies) (k : Nat) (db : Db) (folders : List ImapFolder) (hdb : inv db) :
    inv (upsertFolders names acc r k db folders).2 := by
  induction folders generalizing k db with
  | nil => exact hdb
  | cons folder rest ih =>
    unfold upsertFolders
    split
    · exact ih _ _ (hupsert db folder hdb)
    · exact hdb

/-- What every folder pass keeps, the folder loop keeps. -/
theorem syncFolders_rule {inv : AccountRun → Prop}
    (hpass : ∀ s f r, inv s → inv (s.record f r (folderPass s.db acc f r).2))
    (r : AccountReplies) (k : Nat) (s : AccountRun) (folders : List ImapFolder) (hs : inv s) :
    inv (syncFolders acc r k s folders).2 := by
  induction folders generalizing k s with
  | nil => exact hs
  | cons folder rest ih =>
    unfold syncFolders
    split
    · exact ih _ _ hs
    · split
      · split
        · exact hs
        · rename_i f _
          have hnext := hpass s f (r.folder k) hs
          dsimp only
          split
          · exact ih _ _ hnext
          · exact ih _ _ hnext
          · exact hnext
          · exact hnext
      · exact hs

/-- A run keeps what holds of the database it starts from through the folder upserts,
and of the loop's state through the folder passes. -/
theorem runImapSync_rule (start : Db → Prop) (inv : AccountRun → Prop)
    (hupsert : ∀ db folder, start db → start (upsertListedFolder names db acc folder))
    (hstart : ∀ db, start db → inv ⟨db, [], 0, 0, 0⟩)
    (hpass : ∀ s f r, inv s → inv (s.record f r (folderPass s.db acc f r).2))
    (db : Db) (r : AccountReplies) (hdb : start db) : inv (runImapSync names db acc r).2 := by
  unfold runImapSync
  cases r.connect with
  | error e => exact hstart db hdb
  | ok u =>
    cases r.list with
    | error e => exact hstart db hdb
    | ok listed =>
      dsimp only
      generalize sortByDepth listed = folders
      have hfolders := upsertFolders_rule hupsert r 0 db folders hdb
      split
      · rename_i db' hup
        rw [hup] at hfolders
        exact hstart db' hfolders
      · rename_i db' hup
        rw [hup] at hfolders
        have hloop := syncFolders_rule hpass r 0 ⟨db', [], 0, 0, 0⟩ folders (hstart db' hfolders)
        split
        · rename_i e s hs
          rw [hs] at hloop
          exact hloop
        · rename_i s hs
          rw [hs] at hloop
          exact hloop

/-- A relation that the transactions of a pass keep is kept by every run. -/
theorem KeptByPass.runImapSync {R : Db → Db → Prop} (h : KeptByPass acc R) (db : Db)
    (r : AccountReplies) : R db (runImapSync names db acc r).2.db := by
  refine runImapSync_rule (R db) (fun s => R db s.db) ?_ ?_ ?_ db r (h.refl db)
  · intro d folder hd
    exact h.trans _ _ _ hd (h.frame _ _ rfl)
  · intro d hd
    exact hd
  · intro s f r hs
    exact h.trans _ _ _ hs (h.folderPass s.db f r)

end Rule

end Lyra
