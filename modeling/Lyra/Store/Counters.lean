import Lyra.Http.Requests
import Lyra.Jobs.Snooze

/-!
# Folder counters

`folder.total_messages` and `folder.unread_messages` are recomputed by the writer
of the folder's rows.  A JMAP batch re-homes rows out of other folders and leaves
the vacated folder's counters to that folder's next batch; an IMAP batch may update
a row that was moved to another folder; snoozing recounts nothing.

A run therefore records which folders *lag*: one of their rows was written for
another folder, snoozed or unsnoozed, or a snooze time passed, and no recount has
happened since.

* `counters_match`: in every run, the counters of a folder that does not lag are
  its recount;
* `counters_lag_rehomed`: a re-homed message.
-/

namespace Lyra

open Lyra.Lib

/-! ## Operations -/

inductive StoreOp
  | upsertFolder (acc : AccountId) (wireName displayName : Text) (role parentWire : Option Text)
  | upsertJmapFolder (acc : AccountId) (mailboxId name : Text) (role : Option Text)
  | imapBatch (acc : AccountId) (folder : FolderId) (messages : List ImapMessage)
      (cursor : SyncCursorInfo) (clearFirst : Bool)
  | repair (acc : AccountId) (folder : FolderId) (messages : List ImapMessage)
  | reconcile (acc : AccountId) (folder : FolderId) (serverUids : List Uid)
  | jmapBatch (acc : AccountId) (folder : FolderId) (emails : List JmapEmail)
      (queryState : Option Nat)
  | jmapDelete (acc : AccountId) (externalIds : List Text)
  | patch (protocol : Protocol) (id : Nat) (body : PatchMessageRequest) (replies : Replies)
  | move (protocol : Protocol) (id : Nat) (folder : FolderId) (replies : Replies)
  | moveToRole (protocol : Protocol) (id : Nat) (role : Text) (replies : Replies)
  | destroy (protocol : Protocol) (id : Nat) (replies : Replies)
  | discardDraft (protocol : Protocol) (id : Nat) (replies : Replies)
  | draftRow (acc : AccountId) (folder : FolderId) (serverId : Text) (content : DraftContent)
  | snooze (id untilTime : Nat)
  | unsnooze (id : Nat)
  | tick (now : Nat)

def Db.hasFolder (db : Db) (folder : FolderId) : Bool := db.folders.rows.any fun f => f.id == folder

/-- `message.folder_id REFERENCES folder(id)`. -/
def Db.folderKeys (db : Db) : Bool := db.messages.rows.all fun r => db.hasFolder r.folderId

section Ops

variable (decodeLabels : Text → Option (List Text))

/-- The database after the statements of an operation. -/
def StoreOp.write (db : Db) : StoreOp → Except SyncError Db
  | .upsertFolder acc wireName displayName role parentWire =>
    .ok (Lyra.upsertFolder db acc wireName displayName role parentWire)
  | .upsertJmapFolder acc mailboxId name role =>
    .ok (Lyra.upsertJmapFolder db acc mailboxId name role)
  | .imapBatch acc folder messages cursor clearFirst =>
    .ok (persistImapFolderBatch db acc folder messages cursor clearFirst).2
  | .repair acc folder messages => .ok (repairImapMessages db acc folder messages)
  | .reconcile acc folder serverUids => .ok (reconcileFolderDeletions db acc folder serverUids).2
  | .jmapBatch acc folder emails queryState =>
    .ok (persistJmapFolderBatch db acc folder emails queryState).2
  | .jmapDelete acc externalIds => .ok (deleteJmapMessagesByExternalIds db acc externalIds).2
  | .patch protocol id body replies =>
    (patchMessage decodeLabels protocol db id body replies).result
  | .move protocol id folder replies => (moveMessage protocol db id folder replies).result
  | .moveToRole protocol id role replies => (moveMessageToRole protocol db id role replies).result
  | .destroy protocol id replies => (destroyRowServerSide protocol db id replies).result
  | .discardDraft protocol id replies => (Lyra.discardDraft protocol db id replies).result
  | .draftRow acc folder serverId content => upsertJmapDraftRow db acc folder serverId content
  | .snooze id untilTime =>
    match loadMessageRow db id with
    | .error e => .error e
    | .ok loaded => .ok (setSnoozedUntil db loaded.row.id (some untilTime))
  | .unsnooze id => .ok (setSnoozedUntil db id none)
  | .tick now => if db.now ≤ now then .ok { db with now := now } else .error .database

/-- An operation fails when it would break the foreign key. -/
def StoreOp.apply (db : Db) (op : StoreOp) : Except SyncError Db :=
  match op.write decodeLabels db with
  | .error e => .error e
  | .ok db' => if db'.folderKeys then .ok db' else .error .database

end Ops

/-! ## Which counters an operation recomputes, and which it leaves behind -/

/-- The folder of a row that a request can load. -/
def liveFolder (db : Db) (id : Nat) : List FolderId :=
  match loadMessageRow db id with
  | .error _ => []
  | .ok loaded => [loaded.row.folderId]

/-- Folders whose counters the operation recomputes. -/
def StoreOp.recounts (db : Db) : StoreOp → List FolderId
  | .upsertFolder .. | .upsertJmapFolder .. | .snooze .. | .unsnooze .. | .tick .. => []
  | .imapBatch _ folder .. | .repair _ folder _ | .jmapBatch _ folder .. => [folder]
  | .reconcile acc folder serverUids =>
    if (reconcileFolderDeletions db acc folder serverUids).1 = 0 then [] else [folder]
  | .jmapDelete acc externalIds => foldersOf (db.messages.rows.filter (hasExternalId acc externalIds))
  | .patch _ id .. | .destroy _ id _ | .discardDraft _ id _ => liveFolder db id
  | .move _ id folder _ =>
    match loadMessageRow db id with
    | .error _ => []
    | .ok loaded => if folder = loaded.row.folderId then [] else [loaded.row.folderId, folder]
  | .moveToRole _ id role _ =>
    match loadMessageRow db id with
    | .error _ => []
    | .ok loaded =>
      match roleFolder db loaded.row.accountId role with
      | none => [loaded.row.folderId]
      | some dest => [loaded.row.folderId, dest.id]
  | .draftRow acc folder serverId _ =>
    if (db.messages.find (acc, serverId)).isNone then [folder] else []

/-- Other folders that hold rows with the external ids of a batch. -/
def otherFolders (db : Db) (acc : AccountId) (folder : FolderId) (externalIds : List Text) :
    List FolderId :=
  (foldersOf (db.messages.rows.filter (hasExternalId acc externalIds))).filter (· ≠ folder)

/-- A snooze time of the row lies after `now` and not after `later`. -/
def snoozeEnds (now later : Nat) (r : MessageRow) : Bool :=
  r.snoozedUntil.any fun t => decide (now < t) && decide (t ≤ later)

/-- Folders one of whose rows is written for another folder, snoozed or unsnoozed, or
becomes visible by the passing of time. -/
def StoreOp.disturbs (db : Db) : StoreOp → List FolderId
  | .imapBatch acc folder messages .. | .repair acc folder messages =>
    otherFolders db acc folder (messages.map fun m => imapMessageExternalId folder m.uid)
  | .jmapBatch acc folder emails _ => otherFolders db acc folder (emails.map JmapEmail.id)
  | .snooze id _ | .unsnooze id => foldersOf (db.messages.rows.filter fun r => r.id == id)
  | .tick later => foldersOf (db.messages.rows.filter (snoozeEnds db.now later))
  | _ => []

/-! ## Runs -/

/-- A database with the folders whose counters may lag. -/
structure Tracked where
  db : Db
  lagging : List FolderId

/-- Runs from a freshly migrated database; an operation that fails changes nothing. -/
def storeSystem (decodeLabels : Text → Option (List Text)) : System Tracked StoreOp where
  init s := ∃ now, s = ⟨Db.fresh now, []⟩
  step s op s' := op.apply decodeLabels s.db = .ok s'.db ∧
    s'.lagging = (s.lagging ++ op.disturbs s.db).filter fun g => g ∉ op.recounts s.db

/-- The stored counters of a folder are its recount. -/
structure CountersMatch (db : Db) (f : FolderRow) : Prop where
  total : f.totalMessages = saturateI32 (folderTotal db f.id)
  unread : f.unreadMessages = saturateI32 (folderUnread db f.id)

/-! ## Recounts that agree -/

/-- The folder's recount is the same in both databases. -/
def SameCounts (g : FolderId) (db db' : Db) : Prop :=
  folderTotal db' g = folderTotal db g ∧ folderUnread db' g = folderUnread db g

/-- Every row of folder `g` has counters that match. -/
def Accurate (g : FolderId) (db : Db) : Prop :=
  ∀ f ∈ db.folders.rows, f.id = g → CountersMatch db f

theorem Accurate.congr {g : FolderId} {db db' : Db} (h : Accurate g db)
    (hfolders : db'.folders = db.folders) (hsame : SameCounts g db db') : Accurate g db' := by
  intro f hf e
  rw [hfolders] at hf
  obtain ⟨ht, hu⟩ := h f hf e
  subst e
  exact ⟨by rw [hsame.1, ht], by rw [hsame.2, hu]⟩

theorem mem_updateFolderCountsInTx {db : Db} {g : FolderId} {f : FolderRow}
    (h : f ∈ (updateFolderCountsInTx db g).folders.rows) :
    (f.id = g ∧ CountersMatch db f) ∨ (f.id ≠ g ∧ f ∈ db.folders.rows) := by
  simp only [updateFolderCountsInTx, KeyedTable.updateWhere, List.mem_map] at h
  obtain ⟨f₀, hf₀, rfl⟩ := h
  split
  case isTrue e =>
    have e : f₀.id = g := by simpa using e
    subst e
    exact .inl ⟨rfl, rfl, rfl⟩
  case isFalse e => exact .inr ⟨by simpa using e, hf₀⟩

theorem accurate_updateFolderCountsInTx {db : Db} {g k : FolderId} (h : g ≠ k → Accurate g db) :
    Accurate g (updateFolderCountsInTx db k) := by
  intro f hf e
  rcases mem_updateFolderCountsInTx hf with ⟨_, ht, hu⟩ | ⟨hne, hf⟩
  · exact ⟨ht, hu⟩
  · obtain ⟨ht, hu⟩ := h (e ▸ hne) f hf e
    exact ⟨ht, hu⟩

theorem accurate_foldl_updateFolderCountsInTx {db : Db} {g : FolderId} {ks : List FolderId}
    (h : g ∉ ks → Accurate g db) : Accurate g (ks.foldl updateFolderCountsInTx db) := by
  induction ks generalizing db with
  | nil => exact h List.not_mem_nil
  | cons k ks ih =>
    apply ih
    intro hg
    apply accurate_updateFolderCountsInTx
    intro hne
    exact h (by simp [hne, hg])

/-- What a row contributes to the recount of `g`. -/
def share (g : FolderId) (now : Nat) (r : MessageRow) : Bool × Bool :=
  (countedIn g now r, countedIn g now r && !r.isRead)

theorem share_of_elsewhere {g : FolderId} {now : Nat} {r : MessageRow} (h : r.folderId ≠ g) :
    share g now r = (false, false) := by
  simp [share, countedIn, h]

theorem sameCounts_of_rows {g : FolderId} {db db' : Db} (hnow : db'.now = db.now)
    (ht : db'.messages.rows.countP (fun r => (share g db.now r).1) =
      db.messages.rows.countP (fun r => (share g db.now r).1))
    (hu : db'.messages.rows.countP (fun r => (share g db.now r).2) =
      db.messages.rows.countP (fun r => (share g db.now r).2)) : SameCounts g db db' := by
  constructor
  · rw [folderTotal, hnow]; exact ht
  · rw [folderUnread, hnow]; exact hu

theorem sameCounts_map {g : FolderId} (db db' : Db) (h : MessageRow → MessageRow)
    (hnow : db'.now = db.now) (hrows : db'.messages.rows = db.messages.rows.map h)
    (hshare : ∀ r ∈ db.messages.rows, share g db.now (h r) = share g db.now r) :
    SameCounts g db db' := by
  apply sameCounts_of_rows hnow
  · rw [hrows, List.countP_map]
    apply List.countP_congr
    intro r hr
    simp only [Function.comp, hshare r hr]
  · rw [hrows, List.countP_map]
    apply List.countP_congr
    intro r hr
    simp only [Function.comp, hshare r hr]

theorem sameCounts_append {g : FolderId} {db db' : Db} {a : MessageRow} (hnow : db'.now = db.now)
    (hrows : db'.messages.rows = db.messages.rows ++ [a]) (ha : a.folderId ≠ g) :
    SameCounts g db db' := by
  apply sameCounts_of_rows hnow
  · rw [hrows, List.countP_append]
    simp [share_of_elsewhere ha]
  · rw [hrows, List.countP_append]
    simp [share_of_elsewhere ha]

theorem sameCounts_deleteWhere {g : FolderId} (db db' : Db) {p : MessageRow → Bool}
    (hnow : db'.now = db.now) (hrows : db'.messages = db.messages.deleteWhere p)
    (hp : ∀ r ∈ db.messages.rows, p r = true → r.folderId ≠ g) : SameCounts g db db' := by
  have key : ∀ q : Bool × Bool → Bool, q (false, false) = false →
      db'.messages.rows.countP (fun r => q (share g db.now r)) =
        db.messages.rows.countP (fun r => q (share g db.now r)) := by
    intro q hq
    rw [hrows, KeyedTable.deleteWhere, List.countP_filter]
    apply List.countP_congr
    intro r hr
    cases hpr : p r with
    | false => simp
    | true => simp [share_of_elsewhere (hp r hr hpr), hq]
  exact sameCounts_of_rows hnow (key Prod.fst rfl) (key Prod.snd rfl)

theorem SameCounts.trans {g : FolderId} {db₁ db₂ db₃ : Db} (h : SameCounts g db₁ db₂)
    (h' : SameCounts g db₂ db₃) : SameCounts g db₁ db₃ :=
  ⟨h'.1.trans h.1, h'.2.trans h.2⟩

theorem SameCounts.refl (g : FolderId) (db : Db) : SameCounts g db db := ⟨rfl, rfl⟩

/-! ## Batches -/

/-- No row with one of these external ids is in folder `g`. -/
def Elsewhere (g : FolderId) (acc : AccountId) (ids : List Text) (db : Db) : Prop :=
  ∀ r ∈ db.messages.rows, hasExternalId acc ids r = true → r.folderId ≠ g

theorem hasExternalId_iff {acc : AccountId} {ids : List Text} {r : MessageRow} :
    hasExternalId acc ids r = true ↔ ∃ e ∈ ids, r.key = some (acc, e) := by
  cases he : r.externalId with
  | none => simp [hasExternalId, MessageRow.key, he]
  | some e =>
    simp only [hasExternalId, MessageRow.key, he, Option.any_some, Option.map_some,
      Bool.and_eq_true, beq_iff_eq, List.contains_iff_mem, Option.some.injEq, Prod.mk.injEq]
    constructor
    · rintro ⟨ha, hm⟩; exact ⟨e, hm, ha, rfl⟩
    · rintro ⟨_, hm, ha, rfl⟩; exact ⟨ha, hm⟩

theorem elsewhere_of_otherFolders {g f : FolderId} {acc : AccountId} {ids : List Text} {db : Db}
    (hgf : g ≠ f) (h : g ∉ otherFolders db acc f ids) : Elsewhere g acc ids db := by
  intro r hr hx e
  apply h
  simp only [otherFolders, foldersOf, List.mem_filter, List.mem_dedup, List.mem_map,
    decide_eq_true_eq]
  exact ⟨⟨r, ⟨hr, hx⟩, e⟩, hgf⟩

/-- An upsert for another folder of a row that is not in `g`. -/
theorem sameCounts_upsert {g : FolderId} {db db' : Db} {a : MessageRow}
    {merge : MessageRow → MessageRow} {hpk : ∀ x, (merge x).id = x.id}
    {hkey : ∀ x, (merge x).key = x.key}
    {fresh : (∀ x ∈ db.messages.rows, KeyedTable.clash MessageRow.key a x = false) →
      ∀ x ∈ db.messages.rows, x.id ≠ a.id}
    (hnow : db'.now = db.now) (hmsgs : db'.messages = db.messages.upsert a merge hpk hkey fresh)
    (ha : a.folderId ≠ g) {k : AccountId × Text} (hk : a.key = some k)
    (hm : ∀ x ∈ db.messages.rows, x.key = some k → x.folderId ≠ g ∧ (merge x).folderId ≠ g) :
    SameCounts g db db' := by
  cases hf : db.messages.find k with
  | none =>
    apply sameCounts_append hnow _ ha
    rw [hmsgs]
    exact db.messages.upsert_of_free a merge hpk hkey fresh hk hf
  | some y =>
    apply sameCounts_map db db'
      (fun x => if KeyedTable.clash MessageRow.key a x then merge x else x) hnow
    · rw [hmsgs, db.messages.upsert_of_held a merge hpk hkey fresh hk (by rw [hf]; rfl)]
      rfl
    · intro r hr
      split
      case isFalse => rfl
      case isTrue hc =>
        have hrk : r.key = some k := by simpa [KeyedTable.clash, hk] using hc
        obtain ⟨h₁, h₂⟩ := hm r hr hrk
        rw [share_of_elsewhere h₁, share_of_elsewhere h₂]

/-- What a write for folder `f` leaves alone in folder `g`. -/
structure Undisturbed (g : FolderId) (acc : AccountId) (ids : List Text) (db db' : Db) : Prop where
  folders : db'.folders = db.folders
  now : db'.now = db.now
  same : SameCounts g db db'
  elsewhere : Elsewhere g acc ids db'

theorem undisturbed_refl {g : FolderId} {acc : AccountId} {ids : List Text} {db : Db}
    (h : Elsewhere g acc ids db) : Undisturbed g acc ids db db :=
  ⟨rfl, rfl, .refl g db, h⟩

theorem Undisturbed.trans {g : FolderId} {acc : AccountId} {ids : List Text} {db₁ db₂ db₃ : Db}
    (h : Undisturbed g acc ids db₁ db₂) (h' : Undisturbed g acc ids db₂ db₃) :
    Undisturbed g acc ids db₁ db₃ :=
  ⟨h'.folders.trans h.folders, h'.now.trans h.now, h.same.trans h'.same, h'.elsewhere⟩

section Upserts

variable {g f : FolderId} {acc : AccountId} {ids : List Text} {db : Db} (hgf : f ≠ g)
include hgf

theorem undisturbed_upsertMessageInTx {m : ImapMessage}
    (hm : imapMessageExternalId f m.uid ∈ ids) (h : Elsewhere g acc ids db) :
    Undisturbed g acc ids db (upsertMessageInTx db acc f m).2 := by
  have hold : ∀ x ∈ db.messages.rows, x.key = some (acc, imapMessageExternalId f m.uid) →
      x.folderId ≠ g := by
    intro x hx hk
    exact h x hx (hasExternalId_iff.mpr ⟨_, hm, hk⟩)
  refine ⟨rfl, rfl, ?_, ?_⟩
  · refine @sameCounts_upsert g db _ _ _ _ _ (fun _ x hx => db.newMessageId_fresh x hx) rfl rfl hgf _
      (m.key_toRow _ acc f) ?_
    intro x hx hk
    exact ⟨hold x hx hk, hold x hx hk⟩
  · intro r hr hx
    rcases (mem_upsertMessageInTx db acc f m r).mp hr with ⟨x, hxm, rfl⟩ | ⟨_, rfl⟩
    · split at hx
      case isTrue hk => rw [if_pos hk]; exact hold x hxm hk
      case isFalse hk => rw [if_neg hk]; exact h x hxm hx
    · exact hgf

theorem undisturbed_upsertMessages {ms : List ImapMessage}
    (hm : ∀ m ∈ ms, imapMessageExternalId f m.uid ∈ ids) (h : Elsewhere g acc ids db) :
    Undisturbed g acc ids db (upsertMessages acc f db ms).2 := by
  induction ms generalizing db with
  | nil => exact undisturbed_refl h
  | cons m ms ih =>
    have hhead := undisturbed_upsertMessageInTx hgf (hm m List.mem_cons_self) h
    exact hhead.trans (ih (fun m' hm' => hm m' (List.mem_cons_of_mem _ hm')) hhead.elsewhere)

theorem undisturbed_upsertJmapMessageInTx {m : JmapEmail} (hm : m.id ∈ ids)
    (h : Elsewhere g acc ids db) :
    Undisturbed g acc ids db (upsertJmapMessageInTx db acc f m).2 := by
  have hkey : (m.toRow db.newMessageId acc f).key = some (acc, m.id) := rfl
  refine ⟨rfl, rfl, ?_, ?_⟩
  · refine @sameCounts_upsert g db _ _ _ _ _ (fun _ x hx => db.newMessageId_fresh x hx) rfl rfl hgf _
      hkey ?_
    intro x hx hk
    exact ⟨h x hx (hasExternalId_iff.mpr ⟨_, hm, hk⟩), hgf⟩
  · intro r hr hx
    rcases (mem_upsertJmapMessageInTx db acc f m r).mp hr with ⟨x, hxm, rfl⟩ | ⟨_, rfl⟩
    · split at hx
      case isTrue hk => rw [if_pos hk]; exact hgf
      case isFalse hk => rw [if_neg hk]; exact h x hxm hx
    · exact hgf

theorem undisturbed_upsertJmapMessages {ms : List JmapEmail} (hm : ∀ m ∈ ms, m.id ∈ ids)
    (h : Elsewhere g acc ids db) :
    Undisturbed g acc ids db (upsertJmapMessages acc f db ms).2 := by
  induction ms generalizing db with
  | nil => exact undisturbed_refl h
  | cons m ms ih =>
    have hhead := undisturbed_upsertJmapMessageInTx hgf (hm m List.mem_cons_self) h
    exact hhead.trans (ih (fun m' hm' => hm m' (List.mem_cons_of_mem _ hm')) hhead.elsewhere)

end Upserts

section Transactions

variable {g f : FolderId} {acc : AccountId} {db : Db}

theorem accurate_persistImapFolderBatch {ms : List ImapMessage} {c : SyncCursorInfo}
    {clear : Bool}
    (h : g ≠ f → Accurate g db ∧
      g ∉ otherFolders db acc f (ms.map fun m => imapMessageExternalId f m.uid)) :
    Accurate g (persistImapFolderBatch db acc f ms c clear).2 := by
  apply accurate_updateFolderCountsInTx
  intro hne
  obtain ⟨hacc, hother⟩ := h hne
  have hels := elsewhere_of_otherFolders hne hother
  -- the wipe removes rows of `f` only
  have hwipe : Undisturbed g acc (ms.map fun m => imapMessageExternalId f m.uid) db
      (if clear then clearFolderMessagesInTx db f else db) := by
    cases clear with
    | false => exact undisturbed_refl hels
    | true =>
      refine ⟨rfl, rfl, ?_, ?_⟩
      · apply sameCounts_deleteWhere db (clearFolderMessagesInTx db f) rfl rfl
        intro r _ hr e
        have hf : r.folderId = f := by simpa using hr
        exact hne (e ▸ hf)
      · intro r hr
        exact hels r ((db.messages.mem_deleteWhere _ r).mp hr).1
  have hall := hwipe.trans (undisturbed_upsertMessages (Ne.symm hne)
    (fun m hm => List.mem_map.mpr ⟨m, hm, rfl⟩) hwipe.elsewhere)
  exact (hacc.congr hall.folders hall.same).congr rfl (.refl _ _)

theorem accurate_repairImapMessages {ms : List ImapMessage}
    (h : g ≠ f → Accurate g db ∧
      g ∉ otherFolders db acc f (ms.map fun m => imapMessageExternalId f m.uid)) :
    Accurate g (repairImapMessages db acc f ms) := by
  apply accurate_updateFolderCountsInTx
  intro hne
  obtain ⟨hacc, hother⟩ := h hne
  have hall := undisturbed_upsertMessages (Ne.symm hne) (fun m hm => List.mem_map.mpr ⟨m, hm, rfl⟩)
    (elsewhere_of_otherFolders hne hother)
  apply (hacc.congr hall.folders hall.same).congr
  · rfl
  -- clearing bodies leaves every share as it was
  apply sameCounts_map
  · rfl
  · rfl
  · intro r _
    split <;> rfl

theorem accurate_reconcileFolderDeletions {us : List Uid}
    (h : g ∉ (if (reconcileFolderDeletions db acc f us).1 = 0 then [] else [f]) → Accurate g db) :
    Accurate g (reconcileFolderDeletions db acc f us).2 := by
  rcases reconcileFolderDeletions_cases db acc f us with e | ⟨hn, messages, e⟩
  · rw [e] at h ⊢
    exact h List.not_mem_nil
  · rw [if_neg hn] at h
    have hrows := rows_reconcileFolderDeletions db acc f us
    rw [e] at hrows ⊢
    apply accurate_updateFolderCountsInTx
    intro hne
    apply (h (by simpa using hne)).congr
    · rfl
    apply sameCounts_map db { db with messages := messages } _ rfl hrows
    intro r _
    split
    case isFalse => rfl
    case isTrue hv =>
      have hr : r.folderId ≠ g := by
        intro e
        simp only [vanished, Bool.and_eq_true, beq_iff_eq] at hv
        exact hne (e ▸ hv.1.1.2)
      rw [share_of_elsewhere hr]
      exact share_of_elsewhere hr

theorem accurate_persistJmapFolderBatch {ms : List JmapEmail} {qs : Option Nat}
    (h : g ≠ f → Accurate g db ∧ g ∉ otherFolders db acc f (ms.map JmapEmail.id)) :
    Accurate g (persistJmapFolderBatch db acc f ms qs).2 := by
  apply accurate_updateFolderCountsInTx
  intro hne
  obtain ⟨hacc, hother⟩ := h hne
  have hall := undisturbed_upsertJmapMessages (Ne.symm hne)
    (fun m hm => List.mem_map.mpr ⟨m, hm, rfl⟩) (elsewhere_of_otherFolders hne hother)
  have hup := hacc.congr hall.folders hall.same
  cases qs with
  | none => exact hup
  | some _ => exact hup.congr rfl (.refl _ _)

theorem accurate_deleteJmapMessagesByExternalIds {ids : List Text}
    (h : g ∉ foldersOf (db.messages.rows.filter (hasExternalId acc ids)) → Accurate g db) :
    Accurate g (deleteJmapMessagesByExternalIds db acc ids).2 := by
  apply accurate_foldl_updateFolderCountsInTx
  intro hg
  apply (h hg).congr
  · rfl
  apply sameCounts_deleteWhere
  · rfl
  · rfl
  · intro r hr hx e
    apply hg
    simp only [foldersOf, List.mem_dedup, List.mem_map, List.mem_filter]
    exact ⟨r, ⟨hr, hx⟩, e⟩

end Transactions

/-! ## Requests -/

section Rows

variable {g : FolderId} {db : Db} {r : MessageRow}

/-- An update of one row that is not and does not get into `g`. -/
theorem sameCounts_updateRow (hr : r ∈ db.messages.rows) {h : MessageRow → MessageRow}
    {hid : ∀ r, (h r).id = r.id} {hkey : ∀ r, (h r).key = r.key}
    (hshare : share g db.now (h r) = share g db.now r) :
    SameCounts g db (updateRow db r.id h hid hkey) := by
  apply sameCounts_map db (updateRow db r.id h hid hkey) (fun x => if x.id == r.id then h x else x)
    rfl rfl
  intro x hx
  split
  case isFalse => rfl
  case isTrue e =>
    have : x = r := db.messages.eq_of_pk hx hr (by simpa using e)
    rw [this]; exact hshare

/-- One row is rewritten inside its folder, then the folder is recounted. -/
theorem accurate_writeRow (hr : r ∈ db.messages.rows) {h : MessageRow → MessageRow}
    {hid : ∀ r, (h r).id = r.id} {hkey : ∀ r, (h r).key = r.key}
    (hfolder : (h r).folderId = r.folderId) (hacc : g ≠ r.folderId → Accurate g db) :
    Accurate g (updateFolderCountsInTx (updateRow db r.id h hid hkey) r.folderId) := by
  apply accurate_updateFolderCountsInTx
  intro hne
  apply (hacc hne).congr
  · rfl
  · apply sameCounts_updateRow hr
    rw [share_of_elsewhere (Ne.symm hne), share_of_elsewhere (by rw [hfolder]; exact Ne.symm hne)]

theorem accurate_writeMove (hr : r ∈ db.messages.rows) {dest : FolderId}
    (hacc : g ∉ [r.folderId, dest] → Accurate g db) : Accurate g (writeMove db r dest) := by
  apply accurate_updateFolderCountsInTx
  intro hdest
  apply accurate_updateFolderCountsInTx
  intro hsrc
  apply (hacc (by simp [hdest, hsrc])).congr
  · rfl
  · apply sameCounts_updateRow hr
    rw [share_of_elsewhere (Ne.symm hsrc)]
    exact share_of_elsewhere (Ne.symm hdest)

end Rows

section Requests

variable {g : FolderId} {db db' : Db} {protocol : Protocol} {id : Nat} {replies : Replies}

theorem accurate_patchMessage {decodeLabels : Text → Option (List Text)}
    {body : PatchMessageRequest}
    (h : (patchMessage decodeLabels protocol db id body replies).result = .ok db')
    (hacc : g ∉ liveFolder db id → Accurate g db) : Accurate g db' := by
  unfold patchMessage at h
  unfold liveFolder at hacc
  cases hl : loadMessageRow db id with
  | error e => rw [hl] at h; cases h
  | ok loaded =>
    rw [hl] at h hacc
    dsimp only at h hacc
    split at h
    · cases h
    · -- in every branch that succeeds the row is patched in place
      have hw : db' = updateFolderCountsInTx (updateRow db loaded.row.id
          (patchRow body (body.labels.map sanitizeLabels)) (fun _ => rfl) (fun _ => rfl))
          loaded.row.folderId := by
        split at h
        · cases h; rfl
        · split at h
          · exact imapBranch_result h
          · exact jmapBranch_result h
          · cases h; rfl
      rw [hw]
      apply accurate_writeRow (loadMessageRow_mem hl) rfl
      intro hne
      exact hacc (by simpa using hne)

theorem accurate_softDeleteRow {r : MessageRow} (hr : r ∈ db.messages.rows)
    (hacc : g ∉ [r.folderId] → Accurate g db) : Accurate g (softDeleteRow db r) := by
  apply accurate_writeRow hr rfl
  intro hne
  exact hacc (by simpa using hne)

theorem accurate_moveMessage {folder : FolderId}
    (h : (moveMessage protocol db id folder replies).result = .ok db')
    (hacc : g ∉ (StoreOp.move protocol id folder replies).recounts db → Accurate g db) :
    Accurate g db' := by
  unfold moveMessage at h
  simp only [StoreOp.recounts] at hacc
  cases hl : loadMessageRow db id with
  | error e => rw [hl] at h; cases h
  | ok loaded =>
    rw [hl] at h hacc
    dsimp only at h hacc
    split at h
    case h_1 => cases h
    case h_2 dest hdest =>
      have hid : dest.id = folder := by simpa using List.find?_some hdest
      subst hid
      split at h
      case isTrue => cases h
      case isFalse =>
        split at h
        case isTrue e => cases h; rw [if_pos e] at hacc; exact hacc List.not_mem_nil
        case isFalse e =>
          rw [applyMessageMove_result h]
          rw [if_neg e] at hacc
          exact accurate_writeMove (loadMessageRow_mem hl) hacc

theorem accurate_moveMessageToRole {role : Text}
    (h : (moveMessageToRole protocol db id role replies).result = .ok db')
    (hacc : g ∉ (StoreOp.moveToRole protocol id role replies).recounts db → Accurate g db) :
    Accurate g db' := by
  unfold moveMessageToRole at h
  simp only [StoreOp.recounts] at hacc
  cases hl : loadMessageRow db id with
  | error e => rw [hl] at h; cases h
  | ok loaded =>
    rw [hl] at h hacc
    dsimp only at h hacc
    cases hd : roleFolder db loaded.row.accountId role with
    | none =>
      rw [hd] at h hacc
      cases h
      exact accurate_softDeleteRow (loadMessageRow_mem hl) hacc
    | some dest =>
      rw [hd] at h hacc
      rw [applyMessageMove_result h]
      exact accurate_writeMove (loadMessageRow_mem hl) hacc

theorem accurate_destroyRowServerSide
    (h : (destroyRowServerSide protocol db id replies).result = .ok db')
    (hacc : g ∉ liveFolder db id → Accurate g db) : Accurate g db' := by
  unfold destroyRowServerSide at h
  unfold liveFolder at hacc
  cases hl : loadMessageRow db id with
  | error e => rw [hl] at h; cases h
  | ok loaded =>
    rw [hl] at h hacc
    rw [deleteServerSide_result h]
    exact accurate_softDeleteRow (loadMessageRow_mem hl) hacc

theorem accurate_discardDraft (h : (discardDraft protocol db id replies).result = .ok db')
    (hacc : g ∉ liveFolder db id → Accurate g db) : Accurate g db' := by
  unfold discardDraft at h
  unfold liveFolder at hacc
  cases hl : loadMessageRow db id with
  | error e => rw [hl] at h; cases h
  | ok loaded =>
    rw [hl] at h hacc
    dsimp only at h
    split at h
    · cases h
    · rw [deleteServerSide_result h]
      exact accurate_softDeleteRow (loadMessageRow_mem hl) hacc

theorem accurate_upsertJmapDraftRow {acc : AccountId} {folder : FolderId} {serverId : Text}
    {content : DraftContent} (h : upsertJmapDraftRow db acc folder serverId content = .ok db')
    (hacc : g ∉ (StoreOp.draftRow acc folder serverId content).recounts db → Accurate g db) :
    Accurate g db' := by
  unfold upsertJmapDraftRow at h
  simp only [StoreOp.recounts] at hacc
  cases hf : db.messages.find (acc, serverId) with
  | some r =>
    rw [hf] at h hacc
    dsimp only at h
    obtain ⟨hr, -⟩ := (db.messages.find_eq_some_iff _ r).mp hf
    split at h
    · cases h
    · cases h
      apply (hacc List.not_mem_nil).congr
      · rfl
      · apply sameCounts_updateRow hr
        rfl
  | none =>
    rw [hf] at h hacc
    cases h
    apply accurate_updateFolderCountsInTx
    intro hne
    apply (hacc (by simpa using hne)).congr
    · rfl
    · apply sameCounts_append
      · rfl
      · exact db.messages.upsert_of_free _ _ (fun _ => rfl) (fun _ => rfl)
          (fun _ x hx => db.newMessageId_fresh x hx) rfl hf
      · exact Ne.symm hne

end Requests

/-! ## Folders, snoozes and time -/

/-- A folder row is refreshed in place, or inserted empty: its fresh id is the folder
of no message. -/
theorem accurate_upsertFolderRow {g : FolderId} {db : Db} {acc : AccountId} {ext name : Text}
    {role : Option Text} {parent : Option FolderId → Option FolderId} (hkeys : db.folderKeys = true)
    (hacc : Accurate g db) : Accurate g (upsertFolderRow db acc ext name role parent) := by
  intro f hf e
  rcases (mem_upsertFolderRow db acc ext name role parent f).mp hf with
    ⟨f₀, hf₀, rfl⟩ | ⟨_, rfl⟩
  · split
    case isFalse hk =>
      rw [if_neg hk] at e
      obtain ⟨ht, hu⟩ := hacc f₀ hf₀ e
      exact ⟨ht, hu⟩
    case isTrue hk =>
      rw [if_pos hk] at e
      obtain ⟨ht, hu⟩ := hacc f₀ hf₀ e
      exact ⟨ht, hu⟩
  · have hempty : ∀ r ∈ db.messages.rows, r.folderId ≠ db.newFolderId := by
      intro r hr hrf
      obtain ⟨f, hf, hfid⟩ := List.any_eq_true.mp (List.all_eq_true.mp hkeys r hr)
      exact db.newFolderId_fresh f hf ((beq_iff_eq.mp hfid).trans hrf)
    have hnone : ∀ r ∈ db.messages.rows, countedIn db.newFolderId db.now r = false := by
      intro r hr
      simp [countedIn, hempty r hr]
    have ht : folderTotal db db.newFolderId = 0 := by
      apply List.countP_eq_zero.mpr
      intro r hr
      simp [hnone r hr]
    have hu : folderUnread db db.newFolderId = 0 := by
      apply List.countP_eq_zero.mpr
      intro r hr
      simp [hnone r hr]
    constructor
    · exact (congrArg saturateI32 ht).symm
    · exact (congrArg saturateI32 hu).symm

theorem accurate_setSnoozedUntil {g : FolderId} {db : Db} {id : Nat} {v : Option Nat}
    (hg : g ∉ foldersOf (db.messages.rows.filter fun r => r.id == id)) (hacc : Accurate g db) :
    Accurate g (setSnoozedUntil db id v) := by
  apply hacc.congr
  · rfl
  apply sameCounts_map db (setSnoozedUntil db id v) _ rfl rfl
  intro r hr
  split
  case isFalse => rfl
  case isTrue e =>
    have hne : r.folderId ≠ g := by
      intro hrg
      apply hg
      simp only [foldersOf, List.mem_dedup, List.mem_map, List.mem_filter]
      exact ⟨r, ⟨hr, e⟩, hrg⟩
    rw [share_of_elsewhere hne]
    exact share_of_elsewhere hne

theorem accurate_tick {g : FolderId} {db : Db} {later : Nat} (hle : db.now ≤ later)
    (hg : g ∉ foldersOf (db.messages.rows.filter (snoozeEnds db.now later)))
    (hacc : Accurate g db) : Accurate g { db with now := later } := by
  -- a row of the folder is hidden before exactly when it is hidden after
  have hcounted : ∀ r ∈ db.messages.rows, countedIn g later r = countedIn g db.now r := by
    intro r hr
    by_cases hrg : r.folderId = g
    · have hends : snoozeEnds db.now later r = false := by
        cases h : snoozeEnds db.now later r with
        | false => rfl
        | true =>
          refine (hg ?_).elim
          simp only [foldersOf, List.mem_dedup, List.mem_map, List.mem_filter]
          exact ⟨r, ⟨hr, h⟩, hrg⟩
      unfold snoozeEnds at hends
      have hvis : snoozeVisible later r = snoozeVisible db.now r := by
        unfold snoozeVisible
        cases hs : r.snoozedUntil with
        | none => rfl
        | some t =>
          rw [hs] at hends
          simp only [Option.any_some, Bool.and_eq_false_iff, decide_eq_false_iff_not] at hends
          dsimp only
          rw [decide_eq_decide]
          omega
      rw [countedIn, countedIn, hvis]
    · have hne : (r.folderId == g) = false := beq_eq_false_iff_ne.mpr hrg
      simp only [countedIn, hne, Bool.false_and]
  apply hacc.congr
  · rfl
  constructor
  · apply List.countP_congr
    intro r hr
    rw [hcounted r hr]
  · apply List.countP_congr
    intro r hr
    rw [hcounted r hr]

/-! ## Runs keep the counters -/

/-- One operation: folders it recounts become accurate, folders it does not disturb
stay accurate. -/
theorem StoreOp.accurate {decodeLabels : Text → Option (List Text)} {g : FolderId} {db db' : Db}
    {op : StoreOp} (hkeys : db.folderKeys = true) (h : op.write decodeLabels db = .ok db')
    (hacc : g ∉ op.recounts db → Accurate g db ∧ g ∉ op.disturbs db) : Accurate g db' := by
  cases op with
  | upsertFolder acc wireName displayName role parentWire =>
    cases h
    exact accurate_upsertFolderRow hkeys (hacc List.not_mem_nil).1
  | upsertJmapFolder acc mailboxId name role =>
    cases h
    exact accurate_upsertFolderRow hkeys (hacc List.not_mem_nil).1
  | imapBatch acc folder messages cursor clearFirst =>
    cases h
    apply accurate_persistImapFolderBatch
    intro hne
    exact hacc (by simpa [recounts] using hne)
  | repair acc folder messages =>
    cases h
    apply accurate_repairImapMessages
    intro hne
    exact hacc (by simpa [recounts] using hne)
  | reconcile acc folder serverUids =>
    cases h
    apply accurate_reconcileFolderDeletions
    intro hg
    exact (hacc hg).1
  | jmapBatch acc folder emails queryState =>
    cases h
    apply accurate_persistJmapFolderBatch
    intro hne
    exact hacc (by simpa [recounts] using hne)
  | jmapDelete acc externalIds =>
    cases h
    apply accurate_deleteJmapMessagesByExternalIds
    intro hg
    exact (hacc hg).1
  | patch protocol id body replies => exact accurate_patchMessage h fun hg => (hacc hg).1
  | move protocol id folder replies => exact accurate_moveMessage h fun hg => (hacc hg).1
  | moveToRole protocol id role replies =>
    exact accurate_moveMessageToRole h fun hg => (hacc hg).1
  | destroy protocol id replies => exact accurate_destroyRowServerSide h fun hg => (hacc hg).1
  | discardDraft protocol id replies => exact accurate_discardDraft h fun hg => (hacc hg).1
  | draftRow acc folder serverId content =>
    exact accurate_upsertJmapDraftRow h fun hg => (hacc hg).1
  | snooze id untilTime =>
    obtain ⟨ha, hd⟩ := hacc List.not_mem_nil
    simp only [write] at h
    cases hl : loadMessageRow db id with
    | error e => rw [hl] at h; cases h
    | ok loaded =>
      rw [hl] at h
      cases h
      rw [loadMessageRow_id hl]
      exact accurate_setSnoozedUntil hd ha
  | unsnooze id =>
    obtain ⟨ha, hd⟩ := hacc List.not_mem_nil
    cases h
    exact accurate_setSnoozedUntil hd ha
  | tick later =>
    obtain ⟨ha, hd⟩ := hacc List.not_mem_nil
    simp only [write] at h
    split at h
    case isFalse => cases h
    case isTrue hle => cases h; exact accurate_tick hle hd ha

/-- What every run keeps: the foreign key, and accurate counters where nothing lags. -/
structure CountersInv (s : Tracked) : Prop where
  keys : s.db.folderKeys = true
  accurate : ∀ g, g ∉ s.lagging → Accurate g s.db

theorem countersInv_init {decodeLabels : Text → Option (List Text)} {s : Tracked}
    (h : (storeSystem decodeLabels).init s) : CountersInv s := by
  obtain ⟨now, rfl⟩ := h
  exact ⟨rfl, fun g _ f hf => by cases hf⟩

theorem CountersInv.step {decodeLabels : Text → Option (List Text)} {s s' : Tracked}
    {op : StoreOp} (h : CountersInv s) (hs : (storeSystem decodeLabels).step s op s') :
    CountersInv s' := by
  obtain ⟨happly, hlag⟩ := hs
  unfold StoreOp.apply at happly
  cases hw : op.write decodeLabels s.db with
  | error e => rw [hw] at happly; cases happly
  | ok db' =>
    rw [hw] at happly
    dsimp only at happly
    split at happly
    case isFalse => cases happly
    case isTrue hkeys =>
      cases happly
      refine ⟨hkeys, ?_⟩
      intro g hg
      apply StoreOp.accurate h.keys hw
      intro hr
      rw [hlag] at hg
      simp only [List.mem_filter, List.mem_append, decide_eq_true_eq, not_and, not_not] at hg
      constructor
      · apply h.accurate
        intro hl
        exact hr (hg (.inl hl))
      · intro hd
        exact hr (hg (.inr hd))

/-- After every operation of every run, the counters of each folder that does not lag
are the (saturated) numbers of its visible and of its unread visible rows. -/
theorem counters_match (decodeLabels : Text → Option (List Text)) (s : Tracked)
    (h : (storeSystem decodeLabels).Reachable (fun _ _ => True) s) (f : FolderRow)
    (hf : f ∈ s.db.folders.rows) (hlag : f.id ∉ s.lagging) : CountersMatch s.db f := by
  have hinv : CountersInv s := by
    apply System.Reachable.invariant _ _ h
    · intro s hs; exact countersInv_init hs
    · intro s op t hs _ hst; exact hs.step hst
  exact hinv.accurate f.id hlag f hf rfl

/-! ## A re-homed message -/

/-- An unread email of account `a`. -/
def oneEmail : JmapEmail := { id := ['m'] }

/-- Two folders, and the email persisted for the first one. -/
def oneEmailStore : Tracked where
  db := (persistJmapFolderBatch
    (upsertJmapFolder (upsertJmapFolder (Db.fresh 0) ['a'] ['x'] [] none) ['a'] ['y'] [] none)
    ['a'] ['0'] [oneEmail] none).2
  lagging := []

theorem reachable_oneEmailStore :
    (storeSystem fun _ => none).Reachable (fun _ _ => True) oneEmailStore := by
  have h₀ : (storeSystem fun _ => none).Reachable (fun _ _ => True) ⟨Db.fresh 0, []⟩ :=
    .init ⟨0, rfl⟩
  have h₁ := h₀.take (t := ⟨_, _⟩) (.upsertJmapFolder ['a'] ['x'] [] none) trivial ⟨rfl, rfl⟩
  have h₂ := h₁.take (t := ⟨_, _⟩) (.upsertJmapFolder ['a'] ['y'] [] none) trivial ⟨rfl, rfl⟩
  exact h₂.take (.jmapBatch ['a'] ['0'] [oneEmail] none) trivial ⟨rfl, rfl⟩

/-- The folder of the email counts one unread message. -/
theorem counters_match_oneEmail :
    ∃ f ∈ oneEmailStore.db.folders.rows, f.unreadMessages = 1 ∧
      CountersMatch oneEmailStore.db f :=
  ⟨_, .head _, rfl,
    counters_match _ _ reachable_oneEmailStore _ (.head _) List.not_mem_nil⟩

/-- The email moves to the second folder; the first still counts it. -/
theorem counters_lag_rehomed :
    ¬ ∀ s, (storeSystem fun _ => none).Reachable (fun _ _ => True) s →
      ∀ f ∈ s.db.folders.rows, CountersMatch s.db f := by
  intro h
  have hmoved := reachable_oneEmailStore.take (t := ⟨_, _⟩)
    (.jmapBatch ['a'] ['0', '0'] [oneEmail] none) trivial ⟨rfl, rfl⟩
  have hm := (h _ hmoved _ (.head _)).total
  revert hm
  decide

end Lyra
