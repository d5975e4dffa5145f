import Lyra.Imap.Answers
import Lyra.Imap.Identity

/-!
# Convergence of a complete pass

A complete pass over all folders against mailboxes that stay as they are should
leave, in every folder, one live row per message of its mailbox and no other.

Each folder's own pass decides about its rows; the passes of the other folders write
only rows of their own (`FolderWrite`).  The pass deletes rows by bare UID and stores
messages by folder and UID, so it converges when the live rows of the folder are rows of
its mailbox or carry UIDs that are gone, and the messages without a live row have no row
anywhere and are asked for.

* `sync_converges`: in every run, a complete pass from such a state converges;
* `sync_keeps_ghost`: a message moved to a mailbox in which its old UID is another
  message.
-/

namespace Lyra

open Lyra.Lib

/-! ## Runs -/

/-- The mailbox behind each folder, the database, and whether the last step was a
complete pass. -/
structure MailWorld where
  mailboxes : FolderId → Mailbox
  db : Db
  synced : Bool

inductive MailAction
  | request (id : Nat) (request : Request) (replies : Replies)
  | server (mailboxes : FolderId → Mailbox)
  | pass (folder : FolderId) (replies : FolderReplies)
  | syncAll (replies : FolderId → FolderReplies)

/-- A folder's pass that meets no failure. -/
structure Complete (db : Db) (acc : AccountId) (f : FolderId) (r : FolderReplies) : Prop where
  listing : ∃ l, r.listing = .ok l
  reconcileTx : r.reconcileTx = true
  done : (folderPass db acc f r).1 = .done

/-- The database after complete passes over a list of folders. -/
inductive SyncsTo (acc : AccountId) (mailboxes : FolderId → Mailbox)
    (replies : FolderId → FolderReplies) : Db → List FolderId → Db → Prop
  | nil {db : Db} : SyncsTo acc mailboxes replies db [] db
  | cons {db db' : Db} {f : FolderId} {fs : List FolderId} :
      Answers (mailboxes f) (replies f) → Complete db acc f (replies f) →
      SyncsTo acc mailboxes replies (folderPass db acc f (replies f)).2.db fs db' →
      SyncsTo acc mailboxes replies db (f :: fs) db'

section World

variable (decodeLabels : Text → Option (List Text)) (acc : AccountId) (folders : List FolderId)

/-- One step.  The mailboxes change freely between passes: by the commands of requests
and by other clients. -/
def MailWorld.Step (w : MailWorld) : MailAction → MailWorld → Prop
  | .request id request replies, w' =>
    w' = { w with
      db := (request.handle decodeLabels w.db id replies).commit w.db
      synced := false }
  | .server mailboxes, w' => w' = { w with mailboxes := mailboxes, synced := false }
  | .pass folder replies, w' =>
    Answers (w.mailboxes folder) replies ∧
      w' = { w with db := (folderPass w.db acc folder replies).2.db, synced := false }
  | .syncAll replies, w' =>
    SyncsTo acc w.mailboxes replies w.db folders w'.db ∧ w'.mailboxes = w.mailboxes ∧
      w'.synced = true

/-- Runs from an account without messages. -/
def mailSystem : System MailWorld MailAction where
  init w := w.db.messages.rows = [] ∧ w.synced = false
  step w a w' := w.Step decodeLabels acc folders a w'

end World

/-! ## The property and the condition -/

/-- A live row of a folder of the account. -/
def LiveIn (db : Db) (acc : AccountId) (f : FolderId) (r : MessageRow) : Prop :=
  r ∈ db.messages.rows ∧ r.accountId = acc ∧ r.folderId = f ∧ r.isDeleted = false

/-- The live rows of the folder are one row for each message of its mailbox. -/
structure Converged (db : Db) (acc : AccountId) (f : FolderId) (mb : Mailbox) : Prop where
  stored : ∀ u ∈ mb.uids, ∃ r, LiveIn db acc f r ∧
    r.externalId = some (imapMessageExternalId f u) ∧
    ∀ r', LiveIn db acc f r' → r'.externalId = some (imapMessageExternalId f u) → r' = r
  only : ∀ r, LiveIn db acc f r → ∃ u ∈ mb.uids, r.externalId = some (imapMessageExternalId f u)

/-- The UIDs that a pass asks for. -/
def AskedFor (db : Db) (acc : AccountId) (f : FolderId) (mb : Mailbox) (u : Uid) : Prop :=
  u ∈ mb.searchFrom (searchQuery (mb.plan (loadCursor db acc f)).afterUid) ∨
    u ∈ (mb.changedBatch (mb.plan (loadCursor db acc f))).map ImapMessage.uid

/-- When a pass of the folder converges.  After a UIDVALIDITY change the folder is wiped:
then no row of one of its messages may be in another folder. -/
structure Convergent (db : Db) (acc : AccountId) (f : FolderId) (mb : Mailbox) : Prop where
  wiped : (mb.plan (loadCursor db acc f)).uidvalidityChanged = true →
    ∀ u ∈ mb.uids, ∀ q, db.place acc (imapMessageExternalId f u) = some q → q.1 = f
  rows : (mb.plan (loadCursor db acc f)).uidvalidityChanged = false →
    ∀ r, LiveIn db acc f r →
      (∃ u, parseImapUid r.externalId = .ok u ∧ u ∉ mb.uids) ∨
        ∃ u ∈ mb.uids, r.externalId = some (imapMessageExternalId f u)
  missing : (mb.plan (loadCursor db acc f)).uidvalidityChanged = false →
    ∀ u ∈ mb.uids, db.place acc (imapMessageExternalId f u) = some (f, false) ∨
      (db.place acc (imapMessageExternalId f u) = none ∧ AskedFor db acc f mb u)

/-- Every complete pass starts from a convergent state. -/
def CleanSync (acc : AccountId) (folders : List FolderId) (w : MailWorld) : MailAction → Prop
  | .syncAll _ => ∀ f ∈ folders, Convergent w.db acc f (w.mailboxes f)
  | _ => True

/-! ## What the passes of other folders leave alone -/

/-- Writes of one folder: new rows are rows of the folder's messages, rows in other
folders stay, and cursors of other folders stay. -/
structure FolderWrite (acc : AccountId) (g : FolderId) (us : List Uid) (db db' : Db) : Prop where
  rows : ∀ r' ∈ db'.messages.rows,
    (∃ r ∈ db.messages.rows, r'.accountId = r.accountId ∧ r'.externalId = r.externalId ∧
      r'.folderId = r.folderId ∧ (r'.isDeleted = false → r.isDeleted = false)) ∨
    (r'.folderId = g ∧ ∃ u ∈ us, r'.externalId = some (imapMessageExternalId g u))
  others : ∀ e q, q.1 ≠ g → db.place acc e = some q → db'.place acc e = some q
  absent : ∀ e, (∀ u, e ≠ imapMessageExternalId g u) → db.place acc e = none →
    db'.place acc e = none
  cursors : ∀ f, f ≠ g → loadCursor db' acc f = loadCursor db acc f

section FolderWrite

variable {acc : AccountId} {g : FolderId} {us : List Uid} {db db₁ db₂ : Db}

theorem FolderWrite.refl (acc : AccountId) (g : FolderId) (us : List Uid) (db : Db) :
    FolderWrite acc g us db db :=
  ⟨fun r hr => .inl ⟨r, hr, rfl, rfl, rfl, fun h => h⟩, fun _ _ _ h => h, fun _ _ h => h,
    fun _ _ => rfl⟩

theorem FolderWrite.trans (h : FolderWrite acc g us db db₁) (h' : FolderWrite acc g us db₁ db₂) :
    FolderWrite acc g us db db₂ where
  rows := by
    intro r'' hr''
    rcases h'.rows r'' hr'' with ⟨r', hr', ha, he, hf, hd⟩ | hnew
    · rcases h.rows r' hr' with ⟨r, hr, ha', he', hf', hd'⟩ | ⟨hg, u, hu, he'⟩
      · exact .inl ⟨r, hr, ha.trans ha', he.trans he', hf.trans hf', fun hl => hd' (hd hl)⟩
      · exact .inr ⟨hf.trans hg, u, hu, he.trans he'⟩
    · exact .inr hnew
  others := fun e q hq hp => h'.others e q hq (h.others e q hq hp)
  absent := fun e he hp => h'.absent e he (h.absent e he hp)
  cursors := fun f hf => (h'.cursors f hf).trans (h.cursors f hf)

theorem FolderWrite.of_messages (hm : db₁.messages = db.messages)
    (hc : ∀ f, f ≠ g → loadCursor db₁ acc f = loadCursor db acc f) :
    FolderWrite acc g us db db₁ := by
  refine ⟨?_, ?_, ?_, hc⟩
  · intro r hr
    rw [hm] at hr
    exact .inl ⟨r, hr, rfl, rfl, rfl, fun h => h⟩
  · intro e q _ hp
    rw [Db.place, hm]; exact hp
  · intro e _ hp
    rw [Db.place, hm]; exact hp

theorem folderWrite_upsertMessageInTx {m : ImapMessage} (hm : m.uid ∈ us) :
    FolderWrite acc g us db (upsertMessageInTx db acc g m).2 := by
  refine ⟨?_, ?_, ?_, fun _ _ => rfl⟩
  · intro r' hr'
    rcases (mem_upsertMessageInTx db acc g m r').mp hr' with ⟨r, hr, rfl⟩ | ⟨_, rfl⟩
    · refine .inl ⟨r, hr, ?_⟩
      split
      · exact ⟨rfl, rfl, rfl, fun h => h⟩
      · exact ⟨rfl, rfl, rfl, fun h => h⟩
    · exact .inr ⟨rfl, m.uid, hm, rfl⟩
  · intro e q _ hp
    rw [place_upsertMessageInTx, hp]
    split <;> rfl
  · intro e he hp
    rw [place_upsertMessageInTx, if_neg (fun h => he _ h.2), hp]

theorem folderWrite_upsertMessages {ms : List ImapMessage} (hm : ∀ m ∈ ms, m.uid ∈ us) :
    FolderWrite acc g us db (upsertMessages acc g db ms).2 := by
  induction ms generalizing db with
  | nil => exact .refl _ _ _ _
  | cons m ms ih =>
    exact (folderWrite_upsertMessageInTx (hm m List.mem_cons_self)).trans
      (ih fun m' hm' => hm m' (List.mem_cons_of_mem _ hm'))

theorem loadCursor_clearFolderMessagesInTx {f : FolderId} (hf : f ≠ g) :
    loadCursor (clearFolderMessagesInTx db g) acc f = loadCursor db acc f := by
  simp only [loadCursor, clearFolderMessagesInTx, KeyedTable.find_deleteWhere]
  cases h : db.cursors.find (acc, f, .uidvalidityUid) with
  | none => rfl
  | some c =>
    obtain ⟨_, hk⟩ := (db.cursors.find_eq_some_iff _ c).mp h
    have hcf : c.folderId = f := congrArg (fun k => k.2.1) (Option.some.inj hk)
    simp [Option.filter, hcf, hf]

theorem folderWrite_clearFolderMessagesInTx :
    FolderWrite acc g us db (clearFolderMessagesInTx db g) := by
  refine ⟨?_, ?_, ?_, fun f hf => loadCursor_clearFolderMessagesInTx hf⟩
  · intro r hr
    exact .inl ⟨r, ((db.messages.mem_deleteWhere _ r).mp hr).1, rfl, rfl, rfl, fun h => h⟩
  · intro e q hq hp
    rw [place_clearFolderMessagesInTx, hp]
    simp [Option.filter, hq]
  · intro e _ hp
    rw [place_clearFolderMessagesInTx, hp]; rfl

theorem loadCursor_saveCursorInTx_other {f : FolderId} (hf : f ≠ g) (c : SyncCursorInfo) :
    loadCursor (saveCursorInTx db acc g c) acc f = loadCursor db acc f := by
  have hne : (acc, f, CursorType.uidvalidityUid) ≠ (acc, g, (CursorValue.uidvalidityUid c).type) := by
    intro e
    exact hf (congrArg (fun k => k.2.1) e)
  have h := find_saveCursorValueInTx db acc g (.uidvalidityUid c) (acc, f, .uidvalidityUid)
  rw [if_neg hne] at h
  simp only [loadCursor, saveCursorInTx, h]

theorem folderWrite_persistImapFolderBatch {ms : List ImapMessage} (hm : ∀ m ∈ ms, m.uid ∈ us)
    (c : SyncCursorInfo) (clear : Bool) :
    FolderWrite acc g us db (persistImapFolderBatch db acc g ms c clear).2 := by
  have hclear : FolderWrite acc g us db (if clear then clearFolderMessagesInTx db g else db) := by
    cases clear with
    | true => exact folderWrite_clearFolderMessagesInTx
    | false => exact .refl _ _ _ _
  refine (hclear.trans (folderWrite_upsertMessages hm)).trans ?_
  exact .of_messages rfl fun f hf => loadCursor_saveCursorInTx_other hf c

theorem folderWrite_repairImapMessages {ms : List ImapMessage} (hm : ∀ m ∈ ms, m.uid ∈ us) :
    FolderWrite acc g us db (repairImapMessages db acc g ms) := by
  refine (folderWrite_upsertMessages hm).trans ⟨?_, ?_, ?_, fun _ _ => rfl⟩
  · intro r' hr'
    simp only [repairImapMessages, updateFolderCountsInTx_messages, KeyedTable.updateWhere,
      List.mem_map] at hr'
    obtain ⟨r, hr, rfl⟩ := hr'
    refine .inl ⟨r, hr, ?_⟩
    split
    · exact ⟨rfl, rfl, rfl, fun h => h⟩
    · exact ⟨rfl, rfl, rfl, fun h => h⟩
  · intro e q _ hp
    rw [Db.place, view_repairImapMessages _ fun _ => rfl]; exact hp
  · intro e _ hp
    rw [Db.place, view_repairImapMessages _ fun _ => rfl]; exact hp

theorem folderWrite_reconcileFolderDeletions (ls : List Uid) :
    FolderWrite acc g us db (reconcileFolderDeletions db acc g ls).2 := by
  refine ⟨?_, ?_, ?_, ?_⟩
  · intro r' hr'
    rw [rows_reconcileFolderDeletions] at hr'
    obtain ⟨r, hr, rfl⟩ := List.mem_map.mp hr'
    refine .inl ⟨r, hr, ?_⟩
    split
    · exact ⟨rfl, rfl, rfl, fun h => by cases h⟩
    · exact ⟨rfl, rfl, rfl, fun h => h⟩
  · intro e q hq hp
    obtain ⟨r, hr, rfl⟩ := Option.map_eq_some_iff.mp hp
    have hv : vanished acc g ls r = false := by
      simp [vanished, show r.folderId ≠ g from hq]
    rw [Db.place, find_reconcileFolderDeletions, hr]
    simp [hv]
  · intro e _ hp
    rw [Db.place, find_reconcileFolderDeletions, Option.map_eq_none_iff.mp hp]; rfl
  · intro f _
    simp only [loadCursor, reconcileFolderDeletions_cursors]

end FolderWrite

/-! ## A folder's own pass -/

section Pass

variable (acc : AccountId) (f : FolderId) {mb : Mailbox} {r : FolderReplies} (db : Db)

/-- The repair re-fetches messages of the mailbox, or does nothing. -/
theorem repairFolderMojibake_cases (hr : Answers mb r) :
    repairFolderMojibake db acc f r = db ∨
      ∃ ms : List ImapMessage, (∀ m ∈ ms, m.uid ∈ mb.uids) ∧
        repairFolderMojibake db acc f r = repairImapMessages db acc f ms := by
  unfold repairFolderMojibake
  dsimp only
  split
  · exact .inl rfl
  · split
    case h_1 => exact .inl rfl
    case h_2 ms hms =>
      split
      · exact .inl rfl
      · refine .inr ⟨ms, ?_, rfl⟩
        intro m hm
        have hmem := (hr.repair _ _ hms).mem_iff.mp hm
        exact (Mailbox.mem_uids_fetch.mp (List.mem_map_of_mem hmem)).2

theorem folderWrite_passPrelude (hr : Answers mb r) :
    FolderWrite acc f mb.uids db (passPrelude db acc f r).db := by
  have hrepair : FolderWrite acc f mb.uids db (repairFolderMojibake db acc f r) := by
    rcases repairFolderMojibake_cases acc f db hr with e | ⟨ms, hms, e⟩
    · rw [e]; exact .refl _ _ _ _
    · rw [e]; exact folderWrite_repairImapMessages hms
  unfold passPrelude reconcileStep
  split
  · exact hrepair
  · split
    · exact hrepair.trans (folderWrite_reconcileFolderDeletions _)
    · exact hrepair

theorem folderWrite_persistAll {p : PassPlan} {us : List Uid} (bs : List (List ImapMessage))
    (hbs : ∀ m ∈ bs.flatten, m.uid ∈ us) (s : ChunkState) :
    FolderWrite acc f us s.pass.db (persistAll acc f p s bs).pass.db := by
  induction bs generalizing s with
  | nil => exact .refl _ _ _ _
  | cons b bs ih =>
    have hb : FolderWrite acc f us s.pass.db (s.persist acc f p b).pass.db :=
      folderWrite_persistImapFolderBatch
        (fun m hm => hbs m (by rw [List.flatten_cons]; exact List.mem_append_left _ hm)) _ _
    exact hb.trans (ih
      (fun m hm => hbs m (by rw [List.flatten_cons]; exact List.mem_append_right _ hm)) _)

theorem Persisted.uids {p : PassPlan} {order : List Uid} {done : Prop}
    {bs : List (List ImapMessage)} (h : Persisted mb p order done bs) :
    ∀ m ∈ bs.flatten, m.uid ∈ mb.uids := by
  intro m hm
  have hmem : m ∈ (mb.plannedBatches p order).flatten := by
    rw [h.planned, List.flatten_append]
    exact List.mem_append_left _ ((flatten_perm h.perm).mem_iff.mp hm)
  exact Mailbox.uids_of_planned hmem

variable {acc f db}

/-- After the repair, a UID of the mailbox is where it was, or newly stored. -/
theorem place_repairFolderMojibake (hr : Answers mb r) (u : Uid) :
    (repairFolderMojibake db acc f r).place acc (imapMessageExternalId f u) =
        db.place acc (imapMessageExternalId f u) ∨
      (db.place acc (imapMessageExternalId f u) = none ∧
        (repairFolderMojibake db acc f r).place acc (imapMessageExternalId f u) = some (f, false)) := by
  rcases repairFolderMojibake_cases acc f db hr with e | ⟨ms, -, e⟩
  · rw [e]; exact .inl rfl
  · have hplace : (repairFolderMojibake db acc f r).place acc (imapMessageExternalId f u) =
        (upsertMessages acc f db ms).2.place acc (imapMessageExternalId f u) := by
      rw [e, Db.place, view_repairImapMessages _ fun _ => rfl]; rfl
    rw [hplace, place_upsertMessages_uid]
    split
    · cases h : db.place acc (imapMessageExternalId f u) with
      | none => exact .inr ⟨rfl, rfl⟩
      | some q => exact .inl rfl
    · exact .inl rfl

theorem passPrelude_complete (hr : Answers mb r) (hc : Complete db acc f r) :
    ∃ l, l.Perm mb.uids ∧ (passPrelude db acc f r).db =
      (reconcileFolderDeletions (repairFolderMojibake db acc f r) acc f l).2 := by
  obtain ⟨l, hl⟩ := hc.listing
  refine ⟨l, hr.listing l hl, ?_⟩
  simp only [passPrelude, reconcileStep, hl, hc.reconcileTx, ↓reduceIte]

/-- The reconcile keeps the rows of listed UIDs. -/
theorem place_passPrelude (hr : Answers mb r) (hc : Complete db acc f r) {u : Uid}
    (hu : u ∈ mb.uids) :
    (passPrelude db acc f r).db.place acc (imapMessageExternalId f u) =
      (repairFolderMojibake db acc f r).place acc (imapMessageExternalId f u) := by
  obtain ⟨l, hl, e⟩ := passPrelude_complete hr hc
  rw [e, Db.place, find_reconcileFolderDeletions, Db.place]
  cases hf : (repairFolderMojibake db acc f r).messages.find (acc, imapMessageExternalId f u) with
  | none => rfl
  | some x =>
    obtain ⟨_, hk⟩ := (KeyedTable.find_eq_some_iff _ _ x).mp hf
    obtain ⟨e', he', hpair⟩ := Option.map_eq_some_iff.mp hk
    have hext : x.externalId = some (imapMessageExternalId f u) := by
      rw [he']; exact congrArg some (congrArg Prod.snd hpair)
    have hv : vanished acc f l x = false := by
      simp [vanished, staleImapRow, hext, parseImapUid_external f (Mailbox.uid_lt hu),
        hl.mem_iff.mpr hu]
    simp [hv]

/-- No live row of the folder carries a UID that is gone. -/
theorem live_passPrelude (hr : Answers mb r) (hc : Complete db acc f r) {x : MessageRow}
    (hx : LiveIn (passPrelude db acc f r).db acc f x) {u : Uid}
    (hu : parseImapUid x.externalId = .ok u) : u ∈ mb.uids := by
  obtain ⟨l, hl, e⟩ := passPrelude_complete hr hc
  obtain ⟨hmem, hacc, hfolder, hlive⟩ := hx
  rw [e, rows_reconcileFolderDeletions] at hmem
  obtain ⟨y, -, hy⟩ := List.mem_map.mp hmem
  split at hy
  case isTrue => rw [← hy] at hlive; cases hlive
  case isFalse hv =>
    subst hy
    by_contra hn
    apply hv
    have : u ∉ l := fun h => hn (hl.mem_iff.mp h)
    simp [vanished, staleImapRow, hacc, hfolder, hlive, hu, this]

/-- The batches of a complete pass hold every message that was asked for. -/
theorem Persisted.asked {order : List Uid} {bs : List (List ImapMessage)}
    {cursor : Option SyncCursorInfo}
    {done : Prop} (h : Persisted mb (mb.plan cursor) order done bs) (hdone : done)
    (ho : order.Perm (mb.searchFrom (searchQuery (mb.plan cursor).afterUid))) {u : Uid}
    (hu : u ∈ order ∨ u ∈ (mb.changedBatch (mb.plan cursor)).map ImapMessage.uid) :
    u ∈ bs.flatten.map ImapMessage.uid := by
  have hall : mb.plannedBatches (mb.plan cursor) order = h.fetched := by
    rw [h.planned, h.all hdone, List.append_nil]
  have hplanned : u ∈ (mb.plannedBatches (mb.plan cursor) order).flatten.map ImapMessage.uid := by
    rcases hu with hu | hu
    · exact Mailbox.mem_plannedBatches _ (listed_nodup ho) (listed_mem ho) hu
    · exact Mailbox.mem_plannedBatches_of_changed _ hu
  rw [hall] at hplanned
  exact ((flatten_perm h.perm).map ImapMessage.uid).mem_iff.mpr hplanned

/-- One row per message of the mailbox, from where each UID is found. -/
theorem converged_of_place (hstored : ∀ u ∈ mb.uids,
      db.place acc (imapMessageExternalId f u) = some (f, false))
    (honly : ∀ x, LiveIn db acc f x → ∃ u ∈ mb.uids, x.externalId = some (imapMessageExternalId f u)) :
    Converged db acc f mb := by
  refine ⟨?_, honly⟩
  intro u hu
  obtain ⟨x, hx, hxa, hxe, hxf, hxd⟩ := Db.exists_of_place (hstored u hu)
  refine ⟨x, ⟨hx, hxa, hxf, hxd⟩, hxe, ?_⟩
  rintro y ⟨hy, hya, -, -⟩ hye
  apply db.messages.eq_of_key hy hx (k := (acc, imapMessageExternalId f u))
  · rw [MessageRow.key, hye, hya, Option.map_some]
  · rw [MessageRow.key, hxe, hxa, Option.map_some]

theorem FolderWrite.live {db' : Db} (h : FolderWrite acc f mb.uids db db') {x : MessageRow}
    (hx : LiveIn db' acc f x) :
    (∃ y, LiveIn db acc f y ∧ x.externalId = y.externalId) ∨
      ∃ u ∈ mb.uids, x.externalId = some (imapMessageExternalId f u) := by
  obtain ⟨hmem, hacc, hfolder, hlive⟩ := hx
  rcases h.rows x hmem with ⟨y, hy, ha, he, hf, hd⟩ | ⟨-, hu⟩
  · exact .inl ⟨y, ⟨hy, ha.symm.trans hacc, hf.symm.trans hfolder, hd hlive⟩, he⟩
  · exact .inr hu

theorem live_of_wiped {db' : Db}
    (h : FolderWrite acc f mb.uids (clearFolderMessagesInTx db f) db') {x : MessageRow}
    (hx : LiveIn db' acc f x) : ∃ u ∈ mb.uids, x.externalId = some (imapMessageExternalId f u) := by
  rcases h.live hx with ⟨y, ⟨hy, -, hf, -⟩, -⟩ | hu
  · have hp := ((db.messages.mem_deleteWhere _ y).mp hy).2
    rw [hf] at hp
    simp at hp
  · exact hu

theorem place_persistAll_kept {p : PassPlan} (hp : p.uidvalidityChanged = false) (s : ChunkState)
    (bs : List (List ImapMessage)) (u : Uid) :
    (persistAll acc f p s bs).pass.db.place acc (imapMessageExternalId f u) =
      if u ∈ bs.flatten.map ImapMessage.uid then
        some ((s.pass.db.place acc (imapMessageExternalId f u)).getD (f, false))
      else s.pass.db.place acc (imapMessageExternalId f u) := by
  by_cases hbs : bs = []
  · subst hbs; simp
  · rw [place_persistAll acc f p s bs hbs u, hp]
    have hfilter : ∀ o : Option (FolderId × Bool), (o.filter fun q => !(false && !s.cleared) ||
        decide (q.1 ≠ f)) = o := by
      intro o; cases o <;> rfl
    simp only [hfilter]

/-- Without a reset, the pass stores what is missing and drops what is gone. -/
theorem converged_kept (hr : Answers mb r) (hc : Complete db acc f r)
    (h : Convergent db acc f mb)
    (hv : (mb.plan (loadCursor db acc f)).uidvalidityChanged = false)
    {bs : List (List ImapMessage)} (hbs : ∀ m ∈ bs.flatten, m.uid ∈ mb.uids)
    (hasked : ∀ u, AskedFor db acc f mb u → u ∈ bs.flatten.map ImapMessage.uid) :
    Converged (persistAll acc f (mb.plan (loadCursor db acc f))
      (passStart db acc f r (mb.plan (loadCursor db acc f))) bs).pass.db acc f mb := by
  apply converged_of_place
  · intro u hu
    rw [place_persistAll_kept hv]
    have hpre : (passStart db acc f r (mb.plan (loadCursor db acc f))).pass.db.place acc
        (imapMessageExternalId f u) = _ := place_passPrelude hr hc hu
    rw [hpre]
    rcases h.missing hv u hu with hplace | ⟨hnone, hask⟩
    · have hrep : (repairFolderMojibake db acc f r).place acc (imapMessageExternalId f u) =
          some (f, false) := by
        rcases place_repairFolderMojibake hr u with e | ⟨hn, -⟩
        · rw [e, hplace]
        · rw [hplace] at hn; cases hn
      rw [hrep]
      split <;> rfl
    · rw [if_pos (hasked u hask)]
      rcases place_repairFolderMojibake hr u with e | ⟨-, e⟩
      · rw [e, hnone]; rfl
      · rw [e]; rfl
  · intro x hx
    rcases (folderWrite_persistAll acc f bs hbs _).live hx with ⟨y, hy, hxy⟩ | hu
    · rcases (folderWrite_passPrelude acc f db hr).live hy with ⟨z, hz, hyz⟩ | ⟨u, hu, he⟩
      · rcases h.rows hv z hz with ⟨u, hparse, hgone⟩ | ⟨u, hu, he⟩
        · rw [← hyz] at hparse
          exact absurd (live_passPrelude hr hc hy hparse) hgone
        · exact ⟨u, hu, by rw [hxy, hyz, he]⟩
      · exact ⟨u, hu, by rw [hxy, he]⟩
    · exact hu

theorem Mailbox.query_of_changed {cursor : Option SyncCursorInfo}
    (hv : (mb.plan cursor).uidvalidityChanged = true) :
    mb.searchFrom (searchQuery (mb.plan cursor).afterUid) = mb.uids := by
  have hafter : (mb.plan cursor).afterUid = none := by
    simp only [Mailbox.plan, passPlan] at hv ⊢
    rw [hv]; rfl
  rw [hafter]
  exact mb.searchFrom_one

/-- With a reset, the first batch wipes the folder and the batches hold every message. -/
theorem converged_wiped (hr : Answers mb r) (hc : Complete db acc f r)
    (h : Convergent db acc f mb)
    (hv : (mb.plan (loadCursor db acc f)).uidvalidityChanged = true)
    {b : List ImapMessage} {bs : List (List ImapMessage)}
    (hbs : ∀ m ∈ (b :: bs).flatten, m.uid ∈ mb.uids)
    (hall : ∀ u ∈ mb.uids, u ∈ (b :: bs).flatten.map ImapMessage.uid) :
    Converged (persistAll acc f (mb.plan (loadCursor db acc f))
      (passStart db acc f r (mb.plan (loadCursor db acc f))) (b :: bs)).pass.db acc f mb := by
  apply converged_of_place
  · intro u hu
    rw [place_persistAll acc f _ _ _ (List.cons_ne_nil b bs), hv]
    -- a row of the message, if there is one, is in the folder and is wiped
    have hhere : ∀ q, (passPrelude db acc f r).db.place acc (imapMessageExternalId f u) = some q →
        q.1 = f := by
      intro q hq
      rw [place_passPrelude hr hc hu] at hq
      rcases place_repairFolderMojibake hr u with e | ⟨-, e⟩
      · exact h.wiped hv u hu q (e ▸ hq)
      · rw [e] at hq; cases hq; rfl
    have hheld : ((passStart db acc f r (mb.plan (loadCursor db acc f))).pass.db.place acc
        (imapMessageExternalId f u)).filter (fun q => !(true &&
          !(passStart db acc f r (mb.plan (loadCursor db acc f))).cleared) || decide (q.1 ≠ f)) =
        none := by
      cases hq : (passPrelude db acc f r).db.place acc (imapMessageExternalId f u) with
      | none => simp [passStart, hq]
      | some q => simp [passStart, hq, hhere q hq]
    simp only [hheld, hall u hu, ↓reduceIte, Option.getD_none]
  · intro x hx
    -- the first commit is a wipe followed by its messages
    have hb : ∀ m ∈ b, m.uid ∈ mb.uids := fun m hm =>
      hbs m (by rw [List.flatten_cons]; exact List.mem_append_left _ hm)
    have hrest : ∀ m ∈ bs.flatten, m.uid ∈ mb.uids := fun m hm =>
      hbs m (by rw [List.flatten_cons]; exact List.mem_append_right _ hm)
    have hfirst : FolderWrite acc f mb.uids (clearFolderMessagesInTx (passPrelude db acc f r).db f)
        ((passStart db acc f r (mb.plan (loadCursor db acc f))).persist acc f
          (mb.plan (loadCursor db acc f)) b).pass.db := by
      have e : ((passStart db acc f r (mb.plan (loadCursor db acc f))).persist acc f
          (mb.plan (loadCursor db acc f)) b).pass.db =
          (persistImapFolderBatch (passPrelude db acc f r).db acc f b
            ⟨(mb.plan (loadCursor db acc f)).uidValidity,
              max (mb.plan (loadCursor db acc f)).chunkCursor (maxUid b),
              (mb.plan (loadCursor db acc f)).newModseq⟩ true).2 := by
        simp only [ChunkState.persist, PassState.commit, passStart, hv]
        rfl
      rw [e]
      exact @folderWrite_persistImapFolderBatch acc f mb.uids (clearFolderMessagesInTx _ f) b hb _ false
    exact live_of_wiped (hfirst.trans (folderWrite_persistAll acc f bs hrest _)) hx

/-- A complete pass of the folder from a convergent state converges. -/
theorem converged_folderPass (hr : Answers mb r) (hc : Complete db acc f r)
    (h : Convergent db acc f mb) : Converged (folderPass db acc f r).2.db acc f mb := by
  obtain ⟨order, hsearch⟩ := search_of_done hr hc.done
  have ho : Enumerates r (mb.plan (loadCursor db acc f)).afterUid order := by
    intro l hl
    rw [hsearch] at hl
    cases hl; rfl
  have hperm := (hr.search _ _ hsearch).2
  rcases folderPass_run acc f hr db ho with ⟨hnd, _⟩ | ⟨bs, ⟨hbs⟩, hrun⟩ | ⟨hv, hnew, -, hrun⟩
  · exact absurd hc.done hnd
  · rw [hrun]
    cases hv : (mb.plan (loadCursor db acc f)).uidvalidityChanged with
    | false =>
      apply converged_kept hr hc h hv hbs.uids
      intro u hu
      exact hbs.asked hc.done hperm (hu.imp (fun h => hperm.mem_iff.mpr h) id)
    | true =>
      have hall : ∀ u ∈ mb.uids, u ∈ bs.flatten.map ImapMessage.uid := by
        intro u hu
        apply hbs.asked hc.done hperm
        left
        rw [hperm.mem_iff, Mailbox.query_of_changed hv]
        exact hu
      have hne : bs ≠ [] := by
        rintro rfl
        apply hbs.reset hc.done
        refine ⟨hv, List.eq_nil_iff_forall_not_mem.mpr ?_⟩
        intro u hu
        have hmem := listed_mem hperm u (Mailbox.mem_newUids.mp hu).1
        have := hall u hmem
        cases this
      obtain ⟨b, bs', rfl⟩ := List.exists_cons_of_ne_nil hne
      exact converged_wiped hr hc h hv hbs.uids hall
  · rw [hrun]
    -- the mailbox is empty: the wipe is all
    have hempty : ∀ u ∈ mb.uids, False := by
      intro u hu
      have hmem : u ∈ order := by rw [hperm.mem_iff, Mailbox.query_of_changed hv]; exact hu
      exact not_reset hmem ⟨hv, hnew⟩
    apply converged_of_place
    · intro u hu; exact (hempty u hu).elim
    · intro x hx
      have hw : FolderWrite acc f mb.uids (clearFolderMessagesInTx (passPrelude db acc f r).db f)
          ((passPrelude db acc f r).commit acc f []
            ⟨(mb.plan (loadCursor db acc f)).uidValidity, 0,
              (mb.plan (loadCursor db acc f)).newModseq⟩ true).db :=
        @folderWrite_persistImapFolderBatch acc f mb.uids (clearFolderMessagesInTx _ f) []
          (by simp) _ false
      exact live_of_wiped hw hx

/-- Every pass that answers for the mailbox writes only for its folder. -/
theorem folderWrite_folderPass (hr : Answers mb r) (hc : Complete db acc f r) :
    FolderWrite acc f mb.uids db (folderPass db acc f r).2.db := by
  obtain ⟨order, hsearch⟩ := search_of_done hr hc.done
  have ho : Enumerates r (mb.plan (loadCursor db acc f)).afterUid order := by
    intro l hl
    rw [hsearch] at hl
    cases hl; rfl
  have hpre := folderWrite_passPrelude acc f db hr
  rcases folderPass_run acc f hr db ho with ⟨_, hrun⟩ | ⟨bs, ⟨hbs⟩, hrun⟩ | ⟨_, _, _, hrun⟩
  · rw [hrun]; exact .refl _ _ _ _
  · rw [hrun]
    exact hpre.trans (folderWrite_persistAll acc f bs hbs.uids
      (passStart db acc f r (mb.plan (loadCursor db acc f))))
  · rw [hrun]
    exact hpre.trans (@folderWrite_persistImapFolderBatch acc f mb.uids _ [] (by simp) _ true)

end Pass

/-! ## All folders -/

section Frame

variable {acc : AccountId} {f g : FolderId} {mb : Mailbox} {us : List Uid} {db db' : Db}

theorem FolderWrite.live_other (h : FolderWrite acc g us db db') (hne : f ≠ g) {x : MessageRow}
    (hx : LiveIn db' acc f x) : ∃ y, LiveIn db acc f y ∧ x.externalId = y.externalId := by
  obtain ⟨hmem, hacc, hfolder, hlive⟩ := hx
  rcases h.rows x hmem with ⟨y, hy, ha, he, hf, hd⟩ | ⟨hg, -⟩
  · exact ⟨y, ⟨hy, ha.symm.trans hacc, hf.symm.trans hfolder, hd hlive⟩, he⟩
  · exact absurd (hfolder.symm.trans hg) hne

theorem Converged.frame (hc : Converged db acc f mb) (h : FolderWrite acc g us db db')
    (hne : f ≠ g) : Converged db' acc f mb := by
  apply converged_of_place
  · intro u hu
    obtain ⟨x, ⟨hx, hxa, hxf, hxd⟩, hxe, -⟩ := hc.stored u hu
    have hkey : x.key = some (acc, imapMessageExternalId f u) := by
      rw [MessageRow.key, hxe, hxa, Option.map_some]
    have hplace := Db.place_of_mem hx hkey
    rw [hxf, hxd] at hplace
    exact h.others _ _ hne hplace
  · intro x hx
    obtain ⟨y, hy, he⟩ := h.live_other hne hx
    obtain ⟨u, hu, hyu⟩ := hc.only y hy
    exact ⟨u, hu, he.trans hyu⟩

theorem Convergent.frame (hc : Convergent db acc f mb) (h : FolderWrite acc g us db db')
    (hne : f ≠ g) : Convergent db' acc f mb := by
  have hcur := h.cursors f hne
  have hown : ∀ u v, imapMessageExternalId f u ≠ imapMessageExternalId g v := by
    intro u v e
    exact hne (imapMessageExternalId_inj e).1
  refine ⟨?_, ?_, ?_⟩
  · intro hv u hu q hq
    rw [hcur] at hv
    cases hp : db.place acc (imapMessageExternalId f u) with
    | none =>
      rw [h.absent _ (hown u) hp] at hq
      cases hq
    | some q' =>
      have hq' := hc.wiped hv u hu q' hp
      have hkeep := h.others _ q' (by rw [hq']; exact hne) hp
      rw [hq] at hkeep
      cases hkeep
      exact hq'
  · intro hv x hx
    rw [hcur] at hv
    obtain ⟨y, hy, he⟩ := h.live_other hne hx
    rw [he]
    exact hc.rows hv y hy
  · intro hv u hu
    rw [hcur] at hv
    rcases hc.missing hv u hu with hp | ⟨hp, hask⟩
    · exact .inl (h.others _ _ hne hp)
    · refine .inr ⟨h.absent _ (hown u) hp, ?_⟩
      rw [AskedFor, hcur]
      exact hask

end Frame

/-- Complete passes over distinct folders, each convergent at the start. -/
theorem converged_syncsTo {acc : AccountId} {mailboxes : FolderId → Mailbox}
    {replies : FolderId → FolderReplies} {db db' : Db} {folders : List FolderId}
    (h : SyncsTo acc mailboxes replies db folders db') (hnodup : folders.Nodup)
    (hc : ∀ f ∈ folders, Convergent db acc f (mailboxes f)) :
    (∀ f ∈ folders, Converged db' acc f (mailboxes f)) ∧
      ∀ f, f ∉ folders → Converged db acc f (mailboxes f) → Converged db' acc f (mailboxes f) := by
  induction h with
  | nil => exact ⟨fun f hf => (by cases hf), fun f _ h => h⟩
  | @cons db db' f fs hans hcomplete _ ih =>
    obtain ⟨hf, hfs⟩ := List.nodup_cons.mp hnodup
    have hwrite := folderWrite_folderPass hans hcomplete
    have hown := converged_folderPass hans hcomplete (hc f List.mem_cons_self)
    -- the other folders are as they were
    obtain ⟨hrest, hkeep⟩ := ih hfs (by
      intro g hg
      apply (hc g (List.mem_cons_of_mem _ hg)).frame hwrite
      rintro rfl
      exact hf hg)
    constructor
    · intro g hg
      rcases List.mem_cons.mp hg with rfl | hg
      · exact hkeep g hf hown
      · exact hrest g hg
    · intro g hg hconv
      apply hkeep g fun h => hg (List.mem_cons_of_mem _ h)
      apply hconv.frame hwrite
      rintro rfl
      exact hg List.mem_cons_self

/-- In every run whose complete passes start from convergent states, every state right
after a complete pass has, in each folder, one live row per message of its mailbox and
no other live row. -/
theorem sync_converges (decodeLabels : Text → Option (List Text)) (acc : AccountId)
    (folders : List FolderId) (hnodup : folders.Nodup) (w : MailWorld)
    (h : (mailSystem decodeLabels acc folders).Reachable (CleanSync acc folders) w)
    (hsynced : w.synced = true) : ∀ f ∈ folders, Converged w.db acc f (w.mailboxes f) := by
  revert hsynced
  apply System.Reachable.invariant _ _ h
  · intro s hs hsynced
    rw [hs.2] at hsynced
    cases hsynced
  · intro s a t _ hok hst
    cases a with
    | request | server => cases hst; intro hsynced; cases hsynced
    | pass => obtain ⟨-, rfl⟩ := hst; intro hsynced; cases hsynced
    | syncAll replies =>
      obtain ⟨hsync, hbox, -⟩ := hst
      intro _
      rw [hbox]
      exact (converged_syncsTo hsync hnodup hok).1

/-! ## Two folders -/

/-- The answers of a mailbox that stays as it is, none of them failing. -/
def Mailbox.wholeReplies (mb : Mailbox) : FolderReplies where
  condstore := mb.condstore
  select := .ok ⟨mb.uidValidity, mb.highestModseq⟩
  repair := fun us => .ok (mb.fetch us)
  repairTx := true
  listing := .ok mb.uids
  reconcileTx := true
  loadTx := true
  search := fun after =>
    if searchQuery after = 0 then .error .imap else .ok (mb.searchFrom (searchQuery after))
  changed := fun s => .ok (mb.changedSince s)
  fetch := fun _ us => .ok (mb.fetch us)
  persistTx := fun _ => true
  finalTx := true

theorem answers_wholeReplies (mb : Mailbox) : Answers mb mb.wholeReplies where
  condstore := rfl
  select := fun s hs => by cases hs; rfl
  repair := fun us ms hm => by cases hm; exact List.Perm.refl _
  listing := fun l hl => by cases hl; exact List.Perm.refl _
  search := by
    intro after l hl
    simp only [Mailbox.wholeReplies] at hl
    split at hl
    case isTrue => cases hl
    case isFalse hq => cases hl; exact ⟨hq, List.Perm.refl _⟩
  changed := fun s ms hm => by cases hm; exact List.Perm.refl _
  fetch := fun k us ms hm => by cases hm; exact List.Perm.refl _
  fetchError := fun k us e he => by cases he

/-- A mailbox without mod-sequences that holds the UIDs of `us`. -/
def plainMailbox (us : List Uid) (next : Nat) (hasc : us.Pairwise (· < ·))
    (hb : ∀ u ∈ us, 0 < u ∧ u < next) (hn : 0 < next ∧ next ≤ 2 ^ 32) : Mailbox where
  uidValidity := 1
  uidNext := next
  messages := us.map fun u => ⟨{ uid := u }, 0⟩
  highestModseq := none
  condstore := false
  ascending := by
    have e : (us.map fun u => (⟨{ uid := u }, 0⟩ : ServerMessage)).map ServerMessage.uid = us := by
      rw [List.map_map]
      exact List.map_id us
    rw [e]
    exact hasc
  uidBounds := by
    intro m hm
    obtain ⟨u, hu, rfl⟩ := List.mem_map.mp hm
    exact hb u hu
  uidNextPos := hn.1
  uidLimit := hn.2
  modseqBound := fun h hh => by cases hh

/-- UID 1 in the mailbox of each folder. -/
def oneEach : FolderId → Mailbox := fun _ =>
  plainMailbox [1] 2 (by decide) (by decide) (by decide)

/-- The message of `A` has moved to the mailbox of `B`, under UID 2. -/
def movedOver : FolderId → Mailbox := fun f =>
  if f = ['A'] then plainMailbox [] 2 (by decide) (by decide) (by decide)
  else plainMailbox [1, 2] 3 (by decide) (by decide) (by decide)

def twoMailboxes : MailWorld where
  mailboxes := oneEach
  db :=
    { messages := .empty
      folders := twoFolderRows
      cursors := .empty
      now := 0 }
  synced := false

/-- The passes over both folders. -/
def syncBoth (mailboxes : FolderId → Mailbox) (db : Db) : Db :=
  let db := (folderPass db ['a'] ['A'] (mailboxes ['A']).wholeReplies).2.db
  (folderPass db ['a'] ['B'] (mailboxes ['B']).wholeReplies).2.db

theorem syncsTo_syncBoth {mailboxes : FolderId → Mailbox} {db : Db}
    (hA : (folderPass db ['a'] ['A'] (mailboxes ['A']).wholeReplies).1 = .done)
    (hB : (folderPass (folderPass db ['a'] ['A'] (mailboxes ['A']).wholeReplies).2.db ['a'] ['B']
      (mailboxes ['B']).wholeReplies).1 = .done) :
    SyncsTo ['a'] mailboxes (fun f => (mailboxes f).wholeReplies) db [['A'], ['B']]
      (syncBoth mailboxes db) := by
  have hcA : Complete db ['a'] ['A'] (mailboxes ['A']).wholeReplies := ⟨⟨_, rfl⟩, rfl, hA⟩
  have hcB : Complete (folderPass db ['a'] ['A'] (mailboxes ['A']).wholeReplies).2.db ['a'] ['B']
      (mailboxes ['B']).wholeReplies := ⟨⟨_, rfl⟩, rfl, hB⟩
  exact .cons (answers_wholeReplies _) hcA (.cons (answers_wholeReplies _) hcB .nil)

/-- The first complete pass. -/
def firstSync : MailWorld := ⟨oneEach, syncBoth oneEach twoMailboxes.db, true⟩

theorem step_firstSync : (mailSystem noLabels ['a'] [['A'], ['B']]).step twoMailboxes
    (.syncAll fun f => (oneEach f).wholeReplies) firstSync := by
  refine ⟨?_, rfl, rfl⟩
  apply syncsTo_syncBoth
  · rfl
  · rfl

/-- The first complete pass stores the message of each mailbox. -/
theorem first_sync_converges :
    Converged firstSync.db ['a'] ['A'] (oneEach ['A']) ∧
      Converged firstSync.db ['a'] ['B'] (oneEach ['B']) := by
  have hclean : ∀ f ∈ [['A'], ['B']], Convergent twoMailboxes.db ['a'] f (oneEach f) := by
    intro f _
    constructor
    · intro hv
      cases hv
    · rintro _ r ⟨hr, -⟩
      cases hr
    · intro _ u hu
      exact .inr ⟨rfl, .inl hu⟩
  have h₀ : (mailSystem noLabels ['a'] [['A'], ['B']]).Reachable
      (CleanSync ['a'] [['A'], ['B']]) twoMailboxes := .init ⟨rfl, rfl⟩
  have h₁ := h₀.take (.syncAll fun f => (oneEach f).wholeReplies) hclean step_firstSync
  have h := sync_converges noLabels ['a'] [['A'], ['B']] (by decide) _ h₁ rfl
  exact ⟨h ['A'] (by decide), h ['B'] (by decide)⟩

/-- The message of `A` is moved to `B`. -/
def movedLocally : MailWorld :=
  ⟨movedOver, ((Request.move ['B']).handle noLabels firstSync.db 1 ⟨true, [.ok], true⟩).commit
    firstSync.db, false⟩

theorem step_secondSync : (mailSystem noLabels ['a'] [['A'], ['B']]).step movedLocally
    (.syncAll fun f => (movedOver f).wholeReplies)
    ⟨movedOver, syncBoth movedOver movedLocally.db, true⟩ := by
  refine ⟨?_, rfl, rfl⟩
  apply syncsTo_syncBoth
  · rfl
  · rfl

/-- Both folders are synced, the message of `A` is moved to `B`, and both folders are
synced again: the row moved by the request stays beside the row of the new UID. -/
theorem sync_keeps_ghost :
    ¬ ∀ w, (mailSystem noLabels ['a'] [['A'], ['B']]).Reachable (fun _ _ => True) w →
      w.synced = true → ∀ f ∈ [['A'], ['B']], Converged w.db ['a'] f (w.mailboxes f) := by
  intro h
  have h₀ : (mailSystem noLabels ['a'] [['A'], ['B']]).Reachable (fun _ _ => True) twoMailboxes :=
    .init ⟨rfl, rfl⟩
  have h₁ := h₀.take _ trivial step_firstSync
  have h₂ := h₁.take (.request 1 (.move ['B']) ⟨true, [.ok], true⟩) trivial rfl
  have h₃ := h₂.take (.server movedOver) trivial (t := movedLocally) rfl
  have h₄ := h₃.take _ trivial step_secondSync
  -- the moved row carries `A:1`, which is no message of the mailbox of `B`
  have hghost : ∃ r, LiveIn (syncBoth movedOver movedLocally.db) ['a'] ['B'] r ∧
      r.externalId = some (imapMessageExternalId ['A'] 1) :=
    ⟨_, ⟨List.mem_cons_self, rfl, rfl, rfl⟩, rfl⟩
  obtain ⟨r, hr, hext⟩ := hghost
  obtain ⟨u, -, hu⟩ := (h _ h₄ rfl ['B'] (by decide)).only r hr
  rw [hext] at hu
  exact absurd (imapMessageExternalId_inj (Option.some.inj hu)).1 (by decide)

end Lyra
