import Lyra.Lib.Chunks
import Lyra.Lib.Fallible
import Lyra.Store.JmapMessages

/-!
# The JMAP sync run

`run_jmap_sync` for one account: mailboxes, account-level `Email/changes`, a delta or a
full query per mailbox, deletions, and the email state.

A run talks to a `Seam`: the answers of the server, each keyed by the request that asks
for it; a request occurs at most once in a run.  Every awaited call may fail, which
`fails` decides by its number; `cannotCalculateChanges` is an answer and not a failure.
What was written before a failure stays.
-/

namespace Lyra

open Lyra.Lib

abbrev MailboxId := Text
abbrev EmailId := Text

/-! ## Answers -/

structure JmapMailbox where
  id : MailboxId
  name : Text
  role : Option Text := none
  parentId : Option MailboxId := none
  deriving DecidableEq, Repr

/-- One page of an `Email/query` with its `Email/get`. -/
structure EmailPage where
  ids : List EmailId
  emails : List JmapEmail
  queryState : Option Nat
  emailState : Option Nat
  deriving Repr

structure EmailQueryChanges where
  addedIds : List EmailId
  removedIds : List EmailId
  newQueryState : Option Nat
  deriving DecidableEq, Repr

/-- One response to `Email/changes`. -/
structure EmailChangesResponse where
  updated : List EmailId
  destroyed : List EmailId
  newState : Nat
  hasMoreChanges : Bool
  deriving Repr

structure JmapEmailChanges where
  updatedIds : List EmailId
  destroyedIds : List EmailId
  newState : Option Nat
  deriving Repr

/-- The answers of a run; `none` is `cannotCalculateChanges`. -/
structure Seam where
  mailboxes : List JmapMailbox
  /-- By page of the request and state. -/
  changesEmail : Nat → Nat → Option EmailChangesResponse
  queryEmailChanges : MailboxId → Nat → Option EmailQueryChanges
  /-- By mailbox, position and limit. -/
  queryEmailsPage : MailboxId → Nat → Nat → EmailPage
  /-- The re-fetch of the updated ids, by chunk. -/
  getUpdated : Nat → List EmailId → List JmapEmail × Option Nat
  /-- The fetch of a mailbox's added ids, by chunk. -/
  getAdded : MailboxId → Nat → List EmailId → List JmapEmail × Option Nat

/-! ## The state of a run -/

structure SyncRun where
  /-- Awaited calls so far. -/
  calls : Nat := 0
  db : Db
  refetched : List EmailId := []
  removed : List EmailId := []
  newEmailState : Option Nat := none

abbrev SyncM := Fallible SyncRun SyncError

def queryPage : Nat := 100

def changesMaxPages : Nat := 8

def idsChunk : Nat := 1000

def JmapMailbox.folderRole (mb : JmapMailbox) : Option Text :=
  mb.role.or (inferFolderRole mb.name)

/-- The position on the wire is an `i32`. -/
def wirePosition (position : Nat) : Nat := min position (2 ^ 31 - 1)

/-- The first email state that a run comes to know is the one it commits. -/
def SyncRun.noteEmailState (s : SyncRun) (state : Option Nat) : SyncRun :=
  { s with newEmailState := s.newEmailState.or state }

def planDeletions (removed refetched : List EmailId) : List EmailId :=
  removed.filter fun id => !refetched.contains id

section Run

variable (fails : Nat → Option SyncError) (seam : Seam) (acc : AccountId)

/-- An awaited call. -/
def awaitCall : SyncM Unit := do
  let s ← get
  set { s with calls := s.calls + 1 }
  match fails s.calls with
  | some e => throw e
  | none => pure ()

/-- A statement or a transaction. -/
def execute (f : Db → Db) : SyncM Unit := do
  awaitCall fails
  modify fun s => { s with db := f s.db }

def select {α : Type} (f : Db → α) : SyncM α := do
  awaitCall fails
  let s ← get
  return f s.db

/-- The attachments of new messages: a download that fails is marked on the row, a
write that fails ends the run. -/
def downloadAttachments (new : Nat) : SyncM Unit :=
  if new = 0 then pure () else awaitCall fails

/-- Persist one page, then download the attachments of its new messages. -/
def persistAndDownload (folder : FolderId) (emails : List JmapEmail) (queryState : Option Nat) :
    SyncM (Nat × Nat) := do
  let tally ← select fails fun db => (persistJmapFolderBatch db acc folder emails queryState).1
  modify fun s => { s with db := (persistJmapFolderBatch s.db acc folder emails queryState).2 }
  downloadAttachments fails tally.1
  return tally

/-- First mailbox of the email that maps to a local folder. -/
def resolveJmapEmailFolder : List MailboxId → SyncM (Option FolderId)
  | [] => return none
  | mb :: mbs => do
    match ← select fails fun db => findFolderId db acc mb with
    | some folder => return some folder
    | none => resolveJmapEmailFolder mbs

/-- Add an email to the group of its folder. -/
def addToFolder (folder : FolderId) (email : JmapEmail) :
    List (FolderId × List JmapEmail) → List (FolderId × List JmapEmail)
  | [] => [(folder, [email])]
  | (f, es) :: groups =>
    if f = folder then (f, es ++ [email]) :: groups else (f, es) :: addToFolder folder email groups

def groupByFolder : List JmapEmail → List (FolderId × List JmapEmail) →
    SyncM (List (FolderId × List JmapEmail))
  | [], groups => return groups
  | email :: emails, groups => do
    modify fun s => { s with refetched := email.id :: s.refetched }
    match ← resolveJmapEmailFolder fails acc (email.mailboxIds.getD []) with
    | some folder => groupByFolder emails (addToFolder folder email groups)
    | none => groupByFolder emails groups

def persistGroups : List (FolderId × List JmapEmail) → SyncM (Nat × Nat)
  | [] => return (0, 0)
  | (folder, emails) :: groups => do
    let (n, u) ← persistAndDownload fails acc folder emails none
    let (n', u') ← persistGroups groups
    return (n + n', u + u')

/-- Re-fetch updated messages and upsert them under a folder of theirs. -/
def refetchChunks : Nat → List (List EmailId) → SyncM (Nat × Nat)
  | _, [] => return (0, 0)
  | k, chunk :: rest => do
    awaitCall fails
    let groups ← groupByFolder fails acc (seam.getUpdated k chunk).1 []
    let (n, u) ← persistGroups fails acc groups
    let (n', u') ← refetchChunks (k + 1) rest
    return (n + n', u + u')

def refetchUpdatedEmails (updatedIds : List EmailId) : SyncM (Nat × Nat) :=
  refetchChunks fails seam acc 0 (chunks queryPage updatedIds)

/-- Pages of `Email/changes` until there are no more, at most `pages` of them. -/
def changesPages : Nat → Nat → Nat → List EmailId → List EmailId → SyncM (Option JmapEmailChanges)
  | 0, _, since, updated, destroyed => return some ⟨updated, destroyed, some since⟩
  | pages + 1, k, since, updated, destroyed => do
    awaitCall fails
    match seam.changesEmail k since with
    | none => return none
    | some resp =>
      if resp.hasMoreChanges then
        changesPages pages (k + 1) resp.newState (updated ++ resp.updated)
          (destroyed ++ resp.destroyed)
      else
        return some ⟨updated ++ resp.updated, destroyed ++ resp.destroyed, some resp.newState⟩

def emailChanges (since : Nat) : SyncM (Option JmapEmailChanges) :=
  changesPages fails seam changesMaxPages 0 since [] []

/-- Seed the email state from a page of one id of the first mailbox. -/
def seedEmailState : SyncM Unit :=
  match seam.mailboxes with
  | [] => pure ()
  | first :: _ => do
    awaitCall fails
    modify fun s => s.noteEmailState (seam.queryEmailsPage first.id 0 1).emailState

/-- The folder that carries the email state: the inbox, else the first folder. -/
def emailStateAnchor : SyncM (Option FolderId) := do
  match ← select fails fun db => folderIdForRole db acc "inbox".toList with
  | some folder => return some folder
  | none => select fails fun db => firstFolderId db acc

/-- Step 2: account-level changes. -/
def syncEmailChanges (anchor : Option FolderId) : SyncM (Nat × Nat) :=
  match anchor with
  | none => return (0, 0)
  | some anchor => do
    match ← select fails fun db => loadJmapEmailState db acc anchor with
    | none =>
      seedEmailState fails seam
      return (0, 0)
    | some since =>
      match ← emailChanges fails seam since with
      | some changes =>
        modify fun s =>
          { s with removed := s.removed ++ changes.destroyedIds, newEmailState := changes.newState }
        refetchUpdatedEmails fails seam acc changes.updatedIds
      | none =>
        execute fails fun db => clearJmapEmailState db acc anchor
        seedEmailState fails seam
        return (0, 0)

/-- The pages of a full query.  `fuel` bounds their number: running out of it is no
outcome of the code, which goes on. -/
def queryPages (folder : FolderId) (mb : MailboxId) : Nat → Nat → SyncM (Nat × Nat)
  | 0, _ => throw .jmap
  | fuel + 1, k => do
    awaitCall fails
    let page := seam.queryEmailsPage mb (wirePosition (queryPage * k)) queryPage
    modify fun s =>
      { s with refetched := page.ids ++ s.refetched }.noteEmailState page.emailState
    if page.ids.length < queryPage then
      persistAndDownload fails acc folder page.emails page.queryState
    else do
      let (n, u) ← persistAndDownload fails acc folder page.emails none
      let (n', u') ← queryPages folder mb fuel (k + 1)
      return (n + n', u + u')

def fullFolderQuery (fuel : Nat) (folder : FolderId) (mb : MailboxId) : SyncM (Nat × Nat) :=
  queryPages fails seam acc folder mb fuel 0

/-- The chunks of a mailbox's added ids; the query state commits with the last. -/
def addedChunks (folder : FolderId) (mb : MailboxId) (queryState : Option Nat) :
    Nat → List (List EmailId) → SyncM (Nat × Nat)
  | _, [] => return (0, 0)
  | k, chunk :: rest => do
    awaitCall fails
    let (emails, emailState) := seam.getAdded mb k chunk
    modify fun s => s.noteEmailState emailState
    let (n, u) ← persistAndDownload fails acc folder emails
      (if rest.isEmpty then queryState else none)
    let (n', u') ← addedChunks folder mb queryState (k + 1) rest
    return (n + n', u + u')

/-- Fetch and persist a mailbox's additions; without any, the state is committed alone. -/
def persistAdded (folder : FolderId) (mb : MailboxId) (changes : EmailQueryChanges) :
    SyncM (Nat × Nat) :=
  if changes.addedIds.isEmpty then persistAndDownload fails acc folder [] changes.newQueryState
  else
    addedChunks fails seam acc folder mb changes.newQueryState 0 (chunks queryPage changes.addedIds)

/-- Step 3 for one mailbox. -/
def syncMailbox (fuel : Nat) (mb : MailboxId) : SyncM (Nat × Nat) := do
  match ← select fails fun db => findFolderId db acc mb with
  | none => throw .database
  | some folder =>
    match ← select fails fun db => loadJmapCursor db acc folder with
    | none => fullFolderQuery fails seam acc fuel folder mb
    | some state => do
      awaitCall fails
      match seam.queryEmailChanges mb state with
      | some changes =>
        modify fun s =>
          { s with
            removed := s.removed ++ changes.removedIds
            refetched := changes.addedIds ++ s.refetched }
        persistAdded fails seam acc folder mb changes
      | none =>
        execute fails fun db => clearJmapCursor db acc folder
        fullFolderQuery fails seam acc fuel folder mb

def syncMailboxes (fuel : Nat) : List JmapMailbox → SyncM (Nat × Nat)
  | [] => return (0, 0)
  | mb :: mbs => do
    let (n, u) ← syncMailbox fails seam acc fuel mb.id
    let (n', u') ← syncMailboxes fuel mbs
    return (n + n', u + u')

/-- The rows of one chunk of ids are deleted; returns their folders and their number. -/
def deleteChunk (chunk : List EmailId) : SyncM (List FolderId × Nat) := do
  let folders ← select fails fun db =>
    foldersOf (db.messages.rows.filter (hasExternalId acc chunk))
  let deleted ← select fails fun db => (db.messages.rows.filter (hasExternalId acc chunk)).length
  modify fun s =>
    { s with db := { s.db with messages := s.db.messages.deleteWhere (hasExternalId acc chunk) } }
  return (folders, deleted)

def deleteChunks : List (List EmailId) → SyncM (List FolderId × Nat)
  | [] => return ([], 0)
  | chunk :: rest => do
    let (folders, n) ← deleteChunk fails acc chunk
    let (folders', n') ← deleteChunks rest
    return (folders ∪ folders', n + n')

/-- Step 4: hard deletes in chunks, then the counters; not one transaction. -/
def deleteJmapMessages (ids : List EmailId) : SyncM Nat := do
  let (folders, n) ← deleteChunks fails acc (chunks idsChunk ids)
  Fallible.forEach (fun folder => execute fails fun db => updateFolderCountsInTx db folder) folders
  return n

def upsertMailbox (mb : JmapMailbox) : SyncM Unit :=
  execute fails fun db => upsertJmapFolder db acc mb.id mb.name mb.folderRole

def linkParent (mb : JmapMailbox) : SyncM Unit :=
  match mb.parentId with
  | none => pure ()
  | some parent => do
    match ← select fails fun db => linkJmapFolderParent db acc mb.id parent with
    | none => throw .database
    | some db => modify fun s => { s with db := db }

/-- Steps 1 to 3. -/
def gather (fuel : Nat) : SyncM (Option FolderId × Nat × Nat) := do
  awaitCall fails
  Fallible.forEach (upsertMailbox fails acc) seam.mailboxes
  Fallible.forEach (linkParent fails acc) seam.mailboxes
  let anchor ← emailStateAnchor fails acc
  let (n, u) ← syncEmailChanges fails seam acc anchor
  let (n', u') ← syncMailboxes fails seam acc fuel seam.mailboxes
  return (anchor, n + n', u + u')

/-- Step 5. -/
def commitEmailState (anchor : Option FolderId) (state : Option Nat) : SyncM Unit :=
  match anchor, state with
  | some anchor, some state => execute fails fun db => saveJmapEmailState db acc anchor state
  | _, _ => pure ()

def runJmapSync (fuel : Nat) : SyncM SyncResponse := do
  let (anchor, new, updated) ← gather fails seam acc fuel
  let s ← get
  let deleted ← deleteJmapMessages fails acc (planDeletions s.removed s.refetched)
  commitEmailState fails acc anchor s.newEmailState
  return ⟨seam.mailboxes.length, new, updated, deleted⟩

end Run

/-! ## Calls that return -/

section Returns

open Fallible

variable {fails : Nat → Option SyncError} {acc : AccountId} {s t : SyncRun}

theorem returns_awaitCall {u : Unit} :
    Returns (awaitCall fails) s u t ↔ fails s.calls = none ∧ t = { s with calls := s.calls + 1 } := by
  have h : (awaitCall fails).outcome s =
      match fails s.calls with
      | some e => (.error e, { s with calls := s.calls + 1 })
      | none => (.ok (), { s with calls := s.calls + 1 }) := by
    unfold awaitCall
    rw [outcome_bind, outcome_get]
    dsimp only
    rw [outcome_bind, outcome_set]
    dsimp only
    cases fails s.calls with
    | none => rfl
    | some e => rfl
  unfold Returns
  rw [h]
  cases fails s.calls with
  | none => simp [eq_comm]
  | some e => simp

theorem returns_execute {f : Db → Db} {u : Unit} :
    Returns (execute fails f) s u t ↔
      fails s.calls = none ∧ t = { s with calls := s.calls + 1, db := f s.db } := by
  unfold execute
  rw [returns_bind]
  constructor
  · rintro ⟨_, s', h, h'⟩
    obtain ⟨hf, rfl⟩ := returns_awaitCall.mp h
    exact ⟨hf, returns_modify.mp h'⟩
  · rintro ⟨hf, rfl⟩
    exact ⟨(), _, returns_awaitCall.mpr ⟨hf, rfl⟩, returns_modify.mpr rfl⟩

theorem returns_select {α : Type} {f : Db → α} {a : α} :
    Returns (select fails f) s a t ↔
      fails s.calls = none ∧ a = f s.db ∧ t = { s with calls := s.calls + 1 } := by
  unfold select
  rw [returns_bind]
  constructor
  · rintro ⟨_, s', h, h'⟩
    obtain ⟨hf, rfl⟩ := returns_awaitCall.mp h
    obtain ⟨_, _, hget, hpure⟩ := returns_bind.mp h'
    obtain ⟨rfl, rfl⟩ := returns_get.mp hget
    obtain ⟨rfl, rfl⟩ := returns_pure.mp hpure
    exact ⟨hf, rfl, rfl⟩
  · rintro ⟨hf, rfl, rfl⟩
    refine ⟨(), _, returns_awaitCall.mpr ⟨hf, rfl⟩, ?_⟩
    exact returns_bind.mpr ⟨_, _, returns_get.mpr ⟨rfl, rfl⟩, returns_pure.mpr ⟨rfl, rfl⟩⟩

/-- A persisted batch changes the database and nothing else of the run. -/
theorem returns_persistAndDownload {folder : FolderId} {emails : List JmapEmail}
    {qs : Option Nat} {r : Nat × Nat}
    (h : Returns (persistAndDownload fails acc folder emails qs) s r t) :
    ∃ n, t = { s with calls := n, db := (persistJmapFolderBatch s.db acc folder emails qs).2 } := by
  unfold persistAndDownload at h
  obtain ⟨tally, s₁, hsel, h⟩ := returns_bind.mp h
  obtain ⟨-, rfl, rfl⟩ := returns_select.mp hsel
  obtain ⟨_, s₂, hmod, h⟩ := returns_bind.mp h
  obtain rfl := returns_modify.mp hmod
  obtain ⟨_, s₃, hdown, h⟩ := returns_bind.mp h
  obtain ⟨-, rfl⟩ := returns_pure.mp h
  unfold downloadAttachments at hdown
  split at hdown
  · obtain ⟨-, rfl⟩ := returns_pure.mp hdown
    exact ⟨_, rfl⟩
  · obtain ⟨-, rfl⟩ := returns_awaitCall.mp hdown
    exact ⟨_, rfl⟩

end Returns

end Lyra
