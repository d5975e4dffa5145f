import Lyra.Imap.Server
import Lyra.Lib.Chunks

/-!
# One folder of an IMAP sync pass

The body of the folder loop of `run_imap_sync`: SELECT, mojibake repair,
deletion reconcile, cursor, UID search, CHANGEDSINCE fetch, the chunk loop and
the final save.

The server's answers and the outcome of each transaction are arguments
(`FolderReplies`), so one function covers every failure point: a run that stops
after some step is the run whose next answer is a failure.  Each committed
cursor is recorded with the database it was committed to (`Commit`).

* `chunkLoop_eq`: the chunk loop persists, in order, the answers it received
  before the first failure (`persistAll`);
* `mem_persistAll_log`: what a commit of such a run says.
-/

namespace Lyra

open Lyra.Lib

/-! ## Failures -/

inductive ImapError
  | connection
  | tls
  | login
  | protocol
  | timeout
  | crypto
  | imap
  deriving DecidableEq, Repr

/-- Errors that leave the byte stream in an unknown state. -/
def sessionMayBePoisoned : ImapError → Bool
  | .timeout | .imap | .connection | .tls => true
  | .login | .protocol | .crypto => false

structure ImapSelectResult where
  uidValidity : Nat
  highestModseq : Option Nat
  deriving DecidableEq, Repr

/-- UIDs per metadata fetch. -/
def metadataChunk : Nat := 8

/-- The first sequence number of `search_uids`, in `u32` arithmetic. -/
def searchQuery : Option Uid → Nat
  | some uid => (uid + 1) % 2 ^ 32
  | none => 1

/-- What one folder's pass meets: the client's answers and whether each
transaction commits.  `fetch k` answers the `k`-th chunk. -/
structure FolderReplies where
  condstore : Bool
  select : Except ImapError ImapSelectResult
  repair : List Uid → Except ImapError (List ImapMessage)
  repairTx : Bool
  listing : Except ImapError (List Uid)
  reconcileTx : Bool
  loadTx : Bool
  search : Option Uid → Except ImapError (List Uid)
  changed : Nat → Except ImapError (List ImapMessage)
  fetch : Nat → List Uid → Except ImapError (List ImapMessage)
  persistTx : Nat → Bool
  finalTx : Bool

/-- How the loop body ended. -/
inductive FolderExit
  | done
  | skipped
  | poisoned (e : ImapError)
  | failed (e : SyncError)
  deriving DecidableEq, Repr

/-- A committed batch: its messages, its cursor, and the database after it. -/
structure Commit where
  messages : List ImapMessage
  cursor : SyncCursorInfo
  clearFirst : Bool
  db : Db

/-- The running state of a pass: the database, the commits so far, the tallies. -/
structure PassState where
  db : Db
  log : List Commit := []
  new : Nat := 0
  updated : Nat := 0
  deleted : Nat := 0

def PassState.commit (s : PassState) (acc : AccountId) (f : FolderId) (ms : List ImapMessage)
    (c : SyncCursorInfo) (clear : Bool) : PassState :=
  let out := persistImapFolderBatch s.db acc f ms c clear
  { s with
    db := out.2
    log := s.log ++ [⟨ms, c, clear, out.2⟩]
    new := s.new + out.1.1
    updated := s.updated + out.1.2 }

/-! ## The steps before the search -/

/-- `repair_folder_mojibake`; its failures are only logged. -/
def repairFolderMojibake (db : Db) (acc : AccountId) (f : FolderId) (r : FolderReplies) : Db :=
  let uids := mojibakeMessageUids db f 200
  if uids = [] then db
  else
    match r.repair uids with
    | .error _ => db
    | .ok fetched => if fetched = [] ∨ r.repairTx = false then db
      else repairImapMessages db acc f fetched

/-- Soft-delete vanished rows; a failed listing skips the step. -/
def reconcileStep (s : PassState) (acc : AccountId) (f : FolderId) (r : FolderReplies) : PassState :=
  match r.listing with
  | .error _ => s
  | .ok serverUids =>
    if r.reconcileTx then
      let out := reconcileFolderDeletions s.db acc f serverUids
      { s with db := out.2, deleted := s.deleted + out.1 }
    else s

/-- What the pass derives from the stored cursor and the SELECT answer. -/
structure PassPlan where
  uidValidity : Nat
  uidvalidityChanged : Bool
  afterUid : Option Uid
  storedModseq : Nat
  newModseq : Nat
  chunkCursor : Uid
  deriving DecidableEq, Repr

def passPlan (cursor : Option SyncCursorInfo) (sel : ImapSelectResult) (condstore : Bool) :
    PassPlan :=
  let changed := cursor.any fun c => c.uidValidity ≠ sel.uidValidity
  let highest := sel.highestModseq.getD 0
  { uidValidity := sel.uidValidity
    uidvalidityChanged := changed
    afterUid := if changed then none else cursor.map SyncCursorInfo.lastUid
    storedModseq := if changed then 0 else (cursor.map SyncCursorInfo.lastModseq).getD 0
    newModseq := if condstore && decide (0 < highest) then highest else 0
    chunkCursor := (cursor.map SyncCursorInfo.lastUid).getD 0 }

/-! ## The chunk loop -/

/-- `msgs.iter().map(|m| m.uid).max().unwrap_or(0)`. -/
def maxUid (ms : List ImapMessage) : Uid := (ms.map ImapMessage.uid).foldr max 0

/-- State of the chunk loop: the pass, `chunk_cursor`, `uidvalidity_cleared`. -/
structure ChunkState where
  pass : PassState
  chunkCursor : Uid
  cleared : Bool

/-- Persist one fetched chunk. -/
def ChunkState.persist (s : ChunkState) (acc : AccountId) (f : FolderId) (p : PassPlan)
    (ms : List ImapMessage) : ChunkState :=
  let cursor := max s.chunkCursor (maxUid ms)
  { pass := s.pass.commit acc f ms ⟨p.uidValidity, cursor, p.newModseq⟩
      (p.uidvalidityChanged && !s.cleared)
    chunkCursor := cursor
    cleared := true }

/-- Fetch and persist chunk by chunk; the exit is set when the folder ends here. -/
def chunkLoop (acc : AccountId) (f : FolderId) (r : FolderReplies) (p : PassPlan) :
    Nat → List (List Uid) → ChunkState → ChunkState × Option FolderExit
  | _, [], s => (s, none)
  | k, chunk :: rest, s =>
    match r.fetch k chunk with
    | .ok [] => chunkLoop acc f r p (k + 1) rest s
    | .ok (m :: ms) =>
      if r.persistTx k then chunkLoop acc f r p (k + 1) rest (s.persist acc f p (m :: ms))
      else (s, some (.failed .database))
    | .error e =>
      if sessionMayBePoisoned e then (s, some (.poisoned e))
      -- A soft failure ends the chunks, not the folder.
      else (s, none)

/-- The final cursor save, with the CHANGEDSINCE results. -/
def finishFolder (acc : AccountId) (f : FolderId) (r : FolderReplies) (p : PassPlan)
    (messages : List ImapMessage) (s : ChunkState) : FolderExit × PassState :=
  if messages = [] then
    if p.uidvalidityChanged && !s.cleared then
      if r.finalTx then
        (.done, s.pass.commit acc f [] ⟨p.uidValidity, 0, p.newModseq⟩ true)
      else (.failed .database, s.pass)
    else if p.storedModseq < p.newModseq then
      if r.finalTx then
        (.done, s.pass.commit acc f [] ⟨p.uidValidity, s.chunkCursor, p.newModseq⟩ false)
      else (.failed .database, s.pass)
    else (.done, s.pass)
  else if r.finalTx then
    (.done, s.pass.commit acc f messages
      ⟨p.uidValidity, max (maxUid messages) s.chunkCursor, p.newModseq⟩ p.uidvalidityChanged)
  else (.failed .database, s.pass)

/-! ## The folder pass -/

/-- The CHANGEDSINCE answer; nothing is asked without CONDSTORE or a stored
mod-sequence. -/
def changedMessages (r : FolderReplies) (p : PassPlan) : Except ImapError (List ImapMessage) :=
  if r.condstore && decide (0 < p.storedModseq) then r.changed p.storedModseq else .ok []

/-- New UIDs that the CHANGEDSINCE answer does not already carry. -/
def fetchUids (newUids : List Uid) (messages : List ImapMessage) : List Uid :=
  newUids.filter fun u => !((messages.map ImapMessage.uid).contains u)

/-- A failed command: a poisoned session ends the account's pass, anything else
skips the folder. -/
def failedCommand (e : ImapError) : FolderExit :=
  if sessionMayBePoisoned e then .poisoned e else .skipped

/-- The part after the cursor is loaded. -/
def syncMessages (acc : AccountId) (f : FolderId) (r : FolderReplies) (p : PassPlan)
    (s : PassState) : FolderExit × PassState :=
  match r.search p.afterUid with
  | .error e => (failedCommand e, s)
  | .ok newUids =>
    match changedMessages r p with
    | .error e => (failedCommand e, s)
    | .ok messages =>
      match chunkLoop acc f r p 0 (chunks metadataChunk (fetchUids newUids messages))
          ⟨s, p.chunkCursor, false⟩ with
      | (s', some exit) => (exit, s'.pass)
      | (s', none) => finishFolder acc f r p messages s'

/-- Repair and reconcile, which precede the cursor. -/
def passPrelude (db : Db) (acc : AccountId) (f : FolderId) (r : FolderReplies) : PassState :=
  reconcileStep ⟨repairFolderMojibake db acc f r, [], 0, 0, 0⟩ acc f r

/-- The loop body of `run_imap_sync` for a selectable folder. -/
def folderPass (db : Db) (acc : AccountId) (f : FolderId) (r : FolderReplies) :
    FolderExit × PassState :=
  match r.select with
  | .error e => (failedCommand e, ⟨db, [], 0, 0, 0⟩)
  | .ok sel =>
    let s := passPrelude db acc f r
    if r.loadTx then
      syncMessages acc f r (passPlan (loadCursor s.db acc f) sel r.condstore) s
    else (.failed .database, s)

/-! ## Lookups before the search -/

@[simp] theorem loadCursor_repairImapMessages (db : Db) (acc : AccountId) (f g : FolderId)
    (ms : List ImapMessage) :
    loadCursor (repairImapMessages db acc f ms) acc g = loadCursor db acc g := by
  simp [loadCursor, repairImapMessages]

@[simp] theorem loadCursor_repairFolderMojibake (db : Db) (acc : AccountId) (f g : FolderId)
    (r : FolderReplies) : loadCursor (repairFolderMojibake db acc f r) acc g = loadCursor db acc g := by
  unfold repairFolderMojibake
  dsimp only
  split
  · rfl
  · split
    · rfl
    · split
      · rfl
      · simp

theorem view_updateWhere {β : Type} (view : MessageRow → β) (t : MessageTable)
    (p : MessageRow → Bool) (g : MessageRow → MessageRow) (hpk : ∀ r, (g r).id = r.id)
    (hkey : ∀ r, (g r).key = r.key) (hview : ∀ r, view (g r) = view r) (k : AccountId × Text) :
    ((t.updateWhere p g hpk hkey).find k).map view = (t.find k).map view := by
  rw [KeyedTable.find_updateWhere, Option.map_map]
  congr 1
  funext r
  simp only [Function.comp_apply]
  split
  · exact hview r
  · rfl

/-- Beyond the upserts, a repair touches only bodies. -/
theorem view_repairImapMessages {β : Type} (view : MessageRow → β)
    (hview : ∀ r, view { r with bodyText := none, bodyHtml := none } = view r) (db : Db)
    (acc : AccountId) (f : FolderId) (ms : List ImapMessage) (k : AccountId × Text) :
    ((repairImapMessages db acc f ms).messages.find k).map view =
      ((upsertMessages acc f db ms).2.messages.find k).map view :=
  view_updateWhere view (upsertMessages acc f db ms).2.messages _
    (fun r => { r with bodyText := none, bodyHtml := none }) (fun _ => rfl) (fun _ => rfl) hview k

/-- A reconcile touches only `is_deleted`. -/
theorem view_reconcileFolderDeletions {β : Type} (view : MessageRow → β)
    (hview : ∀ r, view { r with isDeleted := true } = view r) (db : Db) (acc : AccountId)
    (f : FolderId) (us : List Uid) (k : AccountId × Text) :
    ((reconcileFolderDeletions db acc f us).2.messages.find k).map view =
      (db.messages.find k).map view := by
  unfold reconcileFolderDeletions
  dsimp only
  split
  · rfl
  · exact view_updateWhere view db.messages _ (fun r => { r with isDeleted := true })
      (fun _ => rfl) (fun _ => rfl) hview k

theorem home_repairImapMessages (db : Db) (acc a : AccountId) (f : FolderId)
    (ms : List ImapMessage) (e : Text) :
    (repairImapMessages db acc f ms).home a e = (upsertMessages acc f db ms).2.home a e :=
  view_repairImapMessages MessageRow.folderId (fun _ => rfl) db acc f ms (a, e)

theorem home_reconcileFolderDeletions (db : Db) (acc a : AccountId) (f : FolderId)
    (us : List Uid) (e : Text) :
    (reconcileFolderDeletions db acc f us).2.home a e = db.home a e :=
  view_reconcileFolderDeletions MessageRow.folderId (fun _ => rfl) db acc f us (a, e)

theorem reconcileFolderDeletions_cursors (db : Db) (acc : AccountId) (f : FolderId)
    (us : List Uid) : (reconcileFolderDeletions db acc f us).2.cursors = db.cursors := by
  unfold reconcileFolderDeletions
  dsimp only
  split <;> rfl

@[simp] theorem passPrelude_log (db : Db) (acc : AccountId) (f : FolderId) (r : FolderReplies) :
    (passPrelude db acc f r).log = [] := by
  unfold passPrelude reconcileStep
  split
  · rfl
  · split <;> rfl

@[simp] theorem loadCursor_passPrelude (db : Db) (acc : AccountId) (f g : FolderId)
    (r : FolderReplies) :
    loadCursor (passPrelude db acc f r).db acc g = loadCursor db acc g := by
  unfold passPrelude reconcileStep
  split
  · simp
  · split
    · simp only [loadCursor, reconcileFolderDeletions_cursors]
      exact loadCursor_repairFolderMojibake db acc f g r
    · simp

theorem home_passPrelude_eq (db : Db) (acc a : AccountId) (f : FolderId) (r : FolderReplies)
    (e : Text) :
    (passPrelude db acc f r).db.home a e = (repairFolderMojibake db acc f r).home a e := by
  unfold passPrelude reconcileStep
  split
  · rfl
  · split
    · exact home_reconcileFolderDeletions _ _ _ _ _ _
    · rfl

/-- The steps before the search can only add rows to the folder. -/
theorem home_passPrelude (db : Db) (acc a : AccountId) (f : FolderId) (r : FolderReplies)
    (e : Text) : (passPrelude db acc f r).db.home a e = db.home a e ∨
      (db.home a e = none ∧ (passPrelude db acc f r).db.home a e = some f) := by
  rw [home_passPrelude_eq]
  unfold repairFolderMojibake
  dsimp only
  split
  · exact .inl rfl
  · split
    · exact .inl rfl
    · split
      · exact .inl rfl
      · rw [home_repairImapMessages, home_upsertMessages]
        split
        · cases h : db.home a e with
          | none => exact .inr ⟨rfl, rfl⟩
          | some g => exact .inl rfl
        · exact .inl rfl

/-! ## Persisting batch after batch -/

/-- Persist successive batches as the chunk loop does. -/
def persistAll (acc : AccountId) (f : FolderId) (p : PassPlan) (s : ChunkState)
    (bs : List (List ImapMessage)) : ChunkState :=
  bs.foldl (fun s b => s.persist acc f p b) s

section PersistAll

variable (acc : AccountId) (f : FolderId) (p : PassPlan)

@[simp] theorem persistAll_nil (s : ChunkState) : persistAll acc f p s [] = s := rfl

@[simp] theorem persistAll_cons (s : ChunkState) (b : List ImapMessage)
    (bs : List (List ImapMessage)) :
    persistAll acc f p s (b :: bs) = persistAll acc f p (s.persist acc f p b) bs := rfl

theorem persistAll_append (s : ChunkState) (bs cs : List (List ImapMessage)) :
    persistAll acc f p s (bs ++ cs) = persistAll acc f p (persistAll acc f p s bs) cs :=
  List.foldl_append

theorem maxUid_append (ms ns : List ImapMessage) : maxUid (ms ++ ns) = max (maxUid ms) (maxUid ns) := by
  induction ms with
  | nil => simp [maxUid]
  | cons m ms ih =>
    simp only [maxUid, List.cons_append, List.map_cons, List.foldr_cons] at ih ⊢
    rw [ih, Nat.max_assoc]

theorem le_maxUid {ms : List ImapMessage} {m : ImapMessage} (h : m ∈ ms) : m.uid ≤ maxUid ms :=
  le_foldr_max (List.mem_map_of_mem h)

theorem maxUid_mem {ms : List ImapMessage} (h : ms ≠ []) : ∃ m ∈ ms, maxUid ms = m.uid := by
  induction ms with
  | nil => exact absurd rfl h
  | cons m ms ih =>
    have e : maxUid (m :: ms) = max m.uid (maxUid ms) := rfl
    by_cases hms : ms = []
    · subst hms
      exact ⟨m, List.mem_cons_self, by rw [e]; exact Nat.max_zero _⟩
    · obtain ⟨n, hn, hmax⟩ := ih hms
      rcases Nat.le_total m.uid (maxUid ms) with hle | hle
      · exact ⟨n, List.mem_cons_of_mem _ hn, by rw [e, Nat.max_eq_right hle, hmax]⟩
      · exact ⟨m, List.mem_cons_self, by rw [e, Nat.max_eq_left hle]⟩

theorem persistAll_chunkCursor (s : ChunkState) (bs : List (List ImapMessage)) :
    (persistAll acc f p s bs).chunkCursor = max s.chunkCursor (maxUid bs.flatten) := by
  induction bs generalizing s with
  | nil => simp [maxUid]
  | cons b bs ih =>
    rw [persistAll_cons, ih, List.flatten_cons, maxUid_append, ← Nat.max_assoc]
    rfl

theorem persistAll_cleared (s : ChunkState) (bs : List (List ImapMessage)) (h : bs ≠ []) :
    (persistAll acc f p s bs).cleared = true := by
  induction bs generalizing s with
  | nil => exact absurd rfl h
  | cons b bs ih =>
    rw [persistAll_cons]
    by_cases hb : bs = []
    · subst hb; rfl
    · exact ih _ hb

/-- Each commit of a run is the run cut after it. -/
theorem mem_persistAll_log (s : ChunkState) (bs : List (List ImapMessage)) (c : Commit) :
    c ∈ (persistAll acc f p s bs).pass.log ↔ c ∈ s.pass.log ∨
      ∃ b pre post, bs = pre ++ b :: post ∧ c.messages = b ∧
        c.cursor = ⟨p.uidValidity, max s.chunkCursor (maxUid (pre ++ [b]).flatten), p.newModseq⟩ ∧
        c.clearFirst = (p.uidvalidityChanged && !(persistAll acc f p s pre).cleared) ∧
        c.db = (persistAll acc f p s (pre ++ [b])).pass.db := by
  induction bs generalizing s with
  | nil =>
    constructor
    · exact .inl
    · rintro (h | ⟨b, pre, post, h, _⟩)
      · exact h
      · cases pre <;> cases h
  | cons b bs ih =>
    rw [persistAll_cons, ih]
    have hlog : (s.persist acc f p b).pass.log = s.pass.log ++
        [⟨b, ⟨p.uidValidity, max s.chunkCursor (maxUid b), p.newModseq⟩,
          p.uidvalidityChanged && !s.cleared, (s.persist acc f p b).pass.db⟩] := rfl
    rw [hlog, List.mem_append, List.mem_singleton]
    constructor
    · rintro ((h | rfl) | ⟨b', pre, post, rfl, hm, hc, hcl, hdb⟩)
      · exact .inl h
      · refine .inr ⟨b, [], bs, rfl, rfl, ?_, rfl, rfl⟩
        simp
      · refine .inr ⟨b', b :: pre, post, rfl, hm, ?_, hcl, hdb⟩
        rw [hc]
        simp only [List.cons_append, List.flatten_cons, maxUid_append, ← Nat.max_assoc]
        rfl
    · rintro (h | ⟨b', pre, post, h, hm, hc, hcl, hdb⟩)
      · exact .inl (.inl h)
      · cases pre with
        | nil =>
          obtain ⟨rfl, rfl⟩ := List.cons.inj h
          refine .inl (.inr ?_)
          cases c
          simp only [List.nil_append, List.flatten_cons, List.flatten_nil, List.append_nil]
            at hm hc hcl hdb
          subst hm hc hcl hdb
          rfl
        | cons a pre =>
          obtain ⟨rfl, rfl⟩ := List.cons.inj h
          refine .inr ⟨b', pre, post, rfl, hm, ?_, hcl, hdb⟩
          rw [hc]
          simp only [List.cons_append, List.flatten_cons, maxUid_append, ← Nat.max_assoc]
          rfl

/-- Where a UID of the folder is found after a run of batches. -/
theorem place_persistAll (s : ChunkState) (bs : List (List ImapMessage)) (hbs : bs ≠ []) (u : Uid) :
    (persistAll acc f p s bs).pass.db.place acc (imapMessageExternalId f u) =
      let held := (s.pass.db.place acc (imapMessageExternalId f u)).filter fun q =>
        !(p.uidvalidityChanged && !s.cleared) || decide (q.1 ≠ f)
      if u ∈ bs.flatten.map ImapMessage.uid then some (held.getD (f, false)) else held := by
  induction bs generalizing s with
  | nil => exact absurd rfl hbs
  | cons b bs ih =>
    have hone := place_persistImapFolderBatch s.pass.db acc f b
      ⟨p.uidValidity, max s.chunkCursor (maxUid b), p.newModseq⟩ (p.uidvalidityChanged && !s.cleared) u
    have hdb : (s.persist acc f p b).pass.db.place acc (imapMessageExternalId f u) = _ := hone
    rw [persistAll_cons]
    by_cases hb : bs = []
    · subst hb
      rw [persistAll_nil, hdb]
      simp
    · rw [ih _ hb, hdb]
      have hcl : (s.persist acc f p b).cleared = true := rfl
      simp only [hcl, Bool.not_true, Bool.and_false, Bool.not_false, Bool.true_or]
      generalize (s.pass.db.place acc (imapMessageExternalId f u)).filter _ = held
      have hfilter : ∀ o : Option (FolderId × Bool), (o.filter fun _ => true) = o := by
        intro o; cases o <;> rfl
      simp only [hfilter, List.flatten_cons, List.map_append, List.mem_append]
      by_cases h1 : u ∈ b.map ImapMessage.uid
      · by_cases h2 : u ∈ bs.flatten.map ImapMessage.uid
        · simp only [h1, h2, or_self, ↓reduceIte, Option.getD_some]
        · simp only [h1, h2, or_false, ↓reduceIte]
      · simp only [h1, false_or, ↓reduceIte]

theorem home_persistAll (s : ChunkState) (bs : List (List ImapMessage)) (hbs : bs ≠ []) (u : Uid) :
    (persistAll acc f p s bs).pass.db.home acc (imapMessageExternalId f u) =
      let held := (s.pass.db.home acc (imapMessageExternalId f u)).filter fun g =>
        !(p.uidvalidityChanged && !s.cleared) || decide (g ≠ f)
      if u ∈ bs.flatten.map ImapMessage.uid then some (held.getD f) else held := by
  simp only [Db.home_eq_place, place_persistAll acc f p s bs hbs u]
  cases h : s.pass.db.place acc (imapMessageExternalId f u) with
  | none => split <;> rfl
  | some q =>
    simp only [Option.map_some, Option.filter]
    split <;> split <;> simp_all

end PersistAll

end Lyra
