import Lyra.Imap.AccountPass

/-!
# Rows that no mailbox holds

A folder also holds rows that are not of its mailbox: imported messages
(`import:<sha256>`), local drafts, rows moved in from another folder.  A pass over the
folder should leave them as they are.

Its transactions choose their rows differently.  An upsert goes by the folder-scoped id
and never meets such a row; the wipe goes by folder alone, the mojibake repair by folder
and body, the reconcile by the number the id ends with.  What a pass makes of these rows
is one function of the row (`Rewrites`), from which the exact condition is read off.

* `rewrites_folderPass`: what a pass makes of the rows that are not of its mailbox;
* `local_rows_kept_iff`: a run leaves them alone exactly when each of its passes spares
  them.
-/

namespace Lyra

open Lyra.Lib

/-- The row's external id encodes no UID of the folder. -/
def LocalTo (f : FolderId) (row : MessageRow) : Prop :=
  ∀ u, row.externalId ≠ some (imapMessageExternalId f u)

/-! ## What the transactions do to such rows -/

/-- The body reset of a mojibake repair. -/
def resetMojibakeBody (f : FolderId) (row : MessageRow) : MessageRow :=
  if row.folderId == f && (isMojibake row.bodyText || isMojibake row.bodyHtml) then
    { row with bodyText := none, bodyHtml := none }
  else row

/-- The soft deletion of a reconcile. -/
def markVanished (acc : AccountId) (f : FolderId) (serverUids : List Uid) (row : MessageRow) :
    MessageRow :=
  if vanished acc f serverUids row then { row with isDeleted := true } else row

/-- The rows of the second database that are local to `f` are what `g` leaves of the rows
of the first. -/
structure Rewrites (f : FolderId) (g : MessageRow → Option MessageRow) (db db' : Db) : Prop where
  id_eq : ∀ x y, g x = some y → y.id = x.id
  externalId_eq : ∀ x y, g x = some y → y.externalId = x.externalId
  rows : ∀ y, LocalTo f y →
    (y ∈ db'.messages.rows ↔ ∃ x ∈ db.messages.rows, g x = some y)

/-- The wipe of a folder, where it happens. -/
def wipe (wiped : Bool) (f : FolderId) (row : MessageRow) : Option MessageRow :=
  if wiped && row.folderId == f then none else some row

section Rewrites

variable {f : FolderId} {g g' : MessageRow → Option MessageRow} {db db₁ db₂ : Db}

theorem Rewrites.refl (f : FolderId) (db : Db) : Rewrites f some db db where
  id_eq := by
    intro x y h
    cases h
    rfl
  externalId_eq := by
    intro x y h
    cases h
    rfl
  rows := by
    intro y _
    constructor
    · intro hy
      exact ⟨y, hy, rfl⟩
    · rintro ⟨x, hx, h⟩
      cases h
      exact hx

theorem Rewrites.trans (h : Rewrites f g db db₁) (h' : Rewrites f g' db₁ db₂) :
    Rewrites f (fun x => (g x).bind g') db db₂ where
  id_eq := by
    intro x z hz
    obtain ⟨y, hy, hz⟩ := Option.bind_eq_some_iff.mp hz
    rw [h'.id_eq y z hz, h.id_eq x y hy]
  externalId_eq := by
    intro x z hz
    obtain ⟨y, hy, hz⟩ := Option.bind_eq_some_iff.mp hz
    rw [h'.externalId_eq y z hz, h.externalId_eq x y hy]
  rows := by
    intro z hlocal
    rw [h'.rows z hlocal]
    -- The row in between has the same external id, so it is local too.
    have hmid : ∀ y, g' y = some z → LocalTo f y := by
      intro y hy u he
      exact hlocal u ((h'.externalId_eq y z hy).trans he)
    constructor
    · rintro ⟨y, hy, hz⟩
      obtain ⟨x, hx, hxy⟩ := (h.rows y (hmid y hz)).mp hy
      exact ⟨x, hx, Option.bind_eq_some_iff.mpr ⟨y, hxy, hz⟩⟩
    · rintro ⟨x, hx, hz⟩
      obtain ⟨y, hxy, hz⟩ := Option.bind_eq_some_iff.mp hz
      exact ⟨y, (h.rows y (hmid y hz)).mpr ⟨x, hx, hxy⟩, hz⟩

theorem Rewrites.congr (h : Rewrites f g db db₁) (he : ∀ x, g x = g' x) : Rewrites f g' db db₁ := by
  obtain rfl : g = g' := funext he
  exact h

theorem Rewrites.kept_iff (h : Rewrites f g db db₁) {x : MessageRow} (hx : x ∈ db.messages.rows)
    (hlocal : LocalTo f x) : x ∈ db₁.messages.rows ↔ g x = some x := by
  rw [h.rows x hlocal]
  constructor
  · rintro ⟨y, hy, hyx⟩
    have e : y = x := db.messages.eq_of_pk hy hx (h.id_eq y x hyx).symm
    rw [e] at hyx
    exact hyx
  · intro hg
    exact ⟨x, hx, hg⟩

theorem rewrites_of_map {m : MessageRow → MessageRow} (hid : ∀ x, (m x).id = x.id)
    (hext : ∀ x, (m x).externalId = x.externalId)
    (hrows : db₁.messages.rows = db.messages.rows.map m) :
    Rewrites f (fun x => some (m x)) db db₁ where
  id_eq := by
    intro x y h
    cases h
    exact hid x
  externalId_eq := by
    intro x y h
    cases h
    exact hext x
  rows := by
    intro y _
    rw [hrows, List.mem_map]
    simp only [Option.some.injEq]

end Rewrites

section Operations

variable {acc : AccountId} {f : FolderId}

/-- An upsert goes by folder-scoped ids: it meets no local row. -/
theorem mem_upsertMessageInTx_of_local (db : Db) (m : ImapMessage) {y : MessageRow}
    (hlocal : LocalTo f y) :
    y ∈ (upsertMessageInTx db acc f m).2.messages.rows ↔ y ∈ db.messages.rows := by
  rw [mem_upsertMessageInTx]
  constructor
  · rintro (⟨x, hx, h⟩ | ⟨_, rfl⟩)
    · split at h
      case isTrue hk =>
        obtain ⟨e, he, hpair⟩ := Option.map_eq_some_iff.mp hk
        refine absurd ?_ (hlocal m.uid)
        rw [← h]
        exact he.trans (congrArg some (congrArg Prod.snd hpair))
      case isFalse => exact h ▸ hx
    · exact absurd rfl (hlocal m.uid)
  · intro hy
    refine .inl ⟨y, hy, if_neg ?_⟩
    intro hk
    obtain ⟨e, he, hpair⟩ := Option.map_eq_some_iff.mp hk
    exact hlocal m.uid (he.trans (congrArg some (congrArg Prod.snd hpair)))

theorem mem_upsertMessages_of_local (db : Db) (ms : List ImapMessage) {y : MessageRow}
    (hlocal : LocalTo f y) :
    y ∈ (upsertMessages acc f db ms).2.messages.rows ↔ y ∈ db.messages.rows := by
  induction ms generalizing db with
  | nil => rfl
  | cons m ms ih => rw [upsertMessages_cons, ih, mem_upsertMessageInTx_of_local db m hlocal]

theorem Rewrites.of_same {g : MessageRow → Option MessageRow} {db db₁ db₂ : Db}
    (h : Rewrites f g db db₁)
    (he : ∀ y, LocalTo f y → (y ∈ db₂.messages.rows ↔ y ∈ db₁.messages.rows)) :
    Rewrites f g db db₂ where
  id_eq := h.id_eq
  externalId_eq := h.externalId_eq
  rows := by
    intro y hlocal
    rw [he y hlocal, h.rows y hlocal]

theorem rewrites_clearFolderMessagesInTx (db : Db) :
    Rewrites f (wipe true f) db (clearFolderMessagesInTx db f) where
  id_eq := by
    intro x y h
    unfold wipe at h
    split at h
    · cases h
    · cases h
      rfl
  externalId_eq := by
    intro x y h
    unfold wipe at h
    split at h
    · cases h
    · cases h
      rfl
  rows := by
    intro y _
    have hmem : y ∈ (clearFolderMessagesInTx db f).messages.rows ↔
        y ∈ db.messages.rows ∧ (y.folderId == f) = false := KeyedTable.mem_deleteWhere ..
    rw [hmem]
    constructor
    · rintro ⟨hy, hf⟩
      exact ⟨y, hy, by simp [wipe, hf]⟩
    · rintro ⟨x, hx, h⟩
      unfold wipe at h
      split at h
      · cases h
      · rename_i hne
        cases h
        exact ⟨hx, by simpa using hne⟩

theorem rewrites_persistImapFolderBatch (db : Db) (ms : List ImapMessage) (c : SyncCursorInfo)
    (clear : Bool) :
    Rewrites f (wipe clear f) db (persistImapFolderBatch db acc f ms c clear).2 := by
  have hupsert : ∀ db₀ y, LocalTo f y →
      (y ∈ (upsertMessages acc f db₀ ms).2.messages.rows ↔ y ∈ db₀.messages.rows) :=
    fun db₀ y hlocal => mem_upsertMessages_of_local db₀ ms hlocal
  cases clear with
  | false => exact (Rewrites.refl f db).of_same (hupsert db)
  | true => exact (rewrites_clearFolderMessagesInTx db).of_same (hupsert (clearFolderMessagesInTx db f))

theorem rewrites_repairImapMessages (db : Db) (ms : List ImapMessage) :
    Rewrites f (fun x => some (resetMojibakeBody f x)) db (repairImapMessages db acc f ms) := by
  have hupsert : Rewrites f some db (upsertMessages acc f db ms).2 :=
    (Rewrites.refl f db).of_same fun y hlocal => mem_upsertMessages_of_local db ms hlocal
  refine (hupsert.trans (rewrites_of_map (m := resetMojibakeBody f) ?_ ?_ rfl)).congr ?_
  · intro x
    unfold resetMojibakeBody
    split <;> rfl
  · intro x
    unfold resetMojibakeBody
    split <;> rfl
  · intro x
    rfl

theorem rewrites_reconcileFolderDeletions (db : Db) (us : List Uid) :
    Rewrites f (fun x => some (markVanished acc f us x)) db
      (reconcileFolderDeletions db acc f us).2 := by
  refine rewrites_of_map ?_ ?_ (rows_reconcileFolderDeletions db acc f us)
  · intro x
    unfold markVanished
    split <;> rfl
  · intro x
    unfold markVanished
    split <;> rfl

end Operations

/-! ## What a folder pass does to them -/

/-- The mojibake repair of a pass commits. -/
def repairs (db : Db) (f : FolderId) (r : FolderReplies) : Bool :=
  let uids := mojibakeMessageUids db f 200
  match r.repair uids with
  | .error _ => false
  | .ok fetched => decide (uids ≠ []) && decide (fetched ≠ []) && r.repairTx

/-- The listing that a pass reconciles the folder with. -/
def reconciled (r : FolderReplies) : Option (List Uid) :=
  match r.listing with
  | .error _ => none
  | .ok serverUids => if r.reconcileTx then some serverUids else none

/-- The first batch after the search commits: a chunk's, or the final one. -/
def commitsFirst (r : FolderReplies) : Nat → List (List Uid) → Bool
  | _, [] => r.finalTx
  | k, chunk :: rest =>
    match r.fetch k chunk with
    | .ok [] => commitsFirst r (k + 1) rest
    | .ok (_ :: _) => r.persistTx k
    | .error e => !sessionMayBePoisoned e && r.finalTx

/-- The pass commits a batch under another UIDVALIDITY than the stored one. -/
def wipesFolder (db : Db) (acc : AccountId) (f : FolderId) (r : FolderReplies)
    (sel : ImapSelectResult) : Bool :=
  let p := passPlan (loadCursor db acc f) sel r.condstore
  r.loadTx && p.uidvalidityChanged &&
    match r.search p.afterUid with
    | .error _ => false
    | .ok newUids => commitsFirst r 0 (chunks metadataChunk newUids)

/-- A local row after the repair and the reconcile of a pass. -/
def preludeFate (db : Db) (acc : AccountId) (f : FolderId) (r : FolderReplies)
    (row : MessageRow) : MessageRow :=
  let repaired := if repairs db f r then resetMojibakeBody f row else row
  match reconciled r with
  | none => repaired
  | some serverUids => markVanished acc f serverUids repaired

/-- What a pass makes of a local row. -/
def passFate (db : Db) (acc : AccountId) (f : FolderId) (r : FolderReplies)
    (row : MessageRow) : Option MessageRow :=
  match r.select with
  | .error _ => some row
  | .ok sel => wipe (wipesFolder db acc f r sel) f (preludeFate db acc f r row)

section Pass

variable {acc : AccountId} {f : FolderId} {r : FolderReplies}

theorem wipe_false (f : FolderId) : wipe false f = some := rfl

theorem repairFolderMojibake_of_not {db : Db} (h : repairs db f r = false) :
    repairFolderMojibake db acc f r = db := by
  unfold repairs at h
  unfold repairFolderMojibake
  dsimp only at h ⊢
  generalize mojibakeMessageUids db f 200 = uids at h ⊢
  split
  · rfl
  · rename_i hu
    split
    · rfl
    · rename_i fetched hf
      rw [hf] at h
      simp only [ne_eq, hu, not_false_eq_true, decide_true, Bool.true_and, Bool.and_eq_false_iff,
        decide_eq_false_iff_not, not_not] at h
      rw [if_pos h]

theorem repairFolderMojibake_of_repairs {db : Db} (h : repairs db f r = true) :
    ∃ fetched, repairFolderMojibake db acc f r = repairImapMessages db acc f fetched := by
  unfold repairs at h
  unfold repairFolderMojibake
  dsimp only at h ⊢
  generalize mojibakeMessageUids db f 200 = uids at h ⊢
  cases hf : r.repair uids with
  | error e =>
    rw [hf] at h
    cases h
  | ok fetched =>
    rw [hf] at h
    simp only [Bool.and_eq_true, decide_eq_true_eq] at h
    obtain ⟨⟨hu, hne⟩, htx⟩ := h
    refine ⟨fetched, ?_⟩
    simp [hu, hne, htx]

theorem rewrites_repairFolderMojibake (db : Db) :
    Rewrites f (fun x => some (if repairs db f r then resetMojibakeBody f x else x)) db
      (repairFolderMojibake db acc f r) := by
  cases h : repairs db f r with
  | false =>
    rw [repairFolderMojibake_of_not h]
    exact Rewrites.refl f db
  | true =>
    obtain ⟨fetched, he⟩ : ∃ fetched, repairFolderMojibake db acc f r =
        repairImapMessages db acc f fetched := repairFolderMojibake_of_repairs h
    rw [he]
    exact rewrites_repairImapMessages db fetched

theorem rewrites_passPrelude (db : Db) :
    Rewrites f (fun x => some (preludeFate db acc f r x)) db (passPrelude db acc f r).db := by
  have hrepair : Rewrites f (fun x => some (if repairs db f r then resetMojibakeBody f x else x)) db
      (repairFolderMojibake db acc f r) := rewrites_repairFolderMojibake db
  unfold passPrelude reconcileStep preludeFate reconciled
  cases r.listing with
  | error e => exact hrepair
  | ok us =>
    cases r.reconcileTx with
    | false => exact hrepair
    | true => exact hrepair.trans (rewrites_reconcileFolderDeletions _ us)

/-- The exit of the chunk loop, or the final save. -/
def finishChunks (acc : AccountId) (f : FolderId) (r : FolderReplies) (p : PassPlan)
    (messages : List ImapMessage) : ChunkState × Option FolderExit → FolderExit × PassState
  | (s, some exit) => (exit, s.pass)
  | (s, none) => finishFolder acc f r p messages s

theorem rewrites_persist (p : PassPlan) (s : ChunkState) (ms : List ImapMessage) :
    Rewrites f (wipe (p.uidvalidityChanged && !s.cleared) f) s.pass.db
      (s.persist acc f p ms).pass.db :=
  rewrites_persistImapFolderBatch s.pass.db ms _ _

/-- Without a wipe ahead, the final save changes no local row. -/
theorem rewrites_finishFolder {p : PassPlan} {messages : List ImapMessage} {s : ChunkState}
    (hcleared : (p.uidvalidityChanged && !s.cleared) = false)
    (hm : p.uidvalidityChanged = true → messages = []) :
    Rewrites f some s.pass.db (finishFolder acc f r p messages s).2.db := by
  have hcommit : ∀ ms c, Rewrites f some s.pass.db (s.pass.commit acc f ms c false).db :=
    fun ms c => rewrites_persistImapFolderBatch s.pass.db ms c false
  unfold finishFolder
  rw [hcleared]
  split
  case isTrue =>
    rw [if_neg Bool.false_ne_true]
    split
    · split
      · exact hcommit _ _
      · exact Rewrites.refl f _
    · exact Rewrites.refl f _
  case isFalse hne =>
    have hsame : p.uidvalidityChanged = false := by
      cases hp : p.uidvalidityChanged with
      | false => rfl
      | true => exact absurd (hm hp) hne
    rw [hsame]
    split
    · exact hcommit _ _
    · exact Rewrites.refl f _

/-- Nor do the chunks before it. -/
theorem rewrites_chunks {p : PassPlan} {messages : List ImapMessage}
    (hm : p.uidvalidityChanged = true → messages = []) (k : Nat) (batches : List (List Uid))
    {s : ChunkState} (hcleared : (p.uidvalidityChanged && !s.cleared) = false) :
    Rewrites f some s.pass.db
      (finishChunks acc f r p messages (chunkLoop acc f r p k batches s)).2.db := by
  induction batches generalizing k s with
  | nil => exact rewrites_finishFolder hcleared hm
  | cons chunk rest ih =>
    unfold chunkLoop
    split
    · exact ih (k + 1) hcleared
    · rename_i m ms _
      split
      · have hpersist : Rewrites f (wipe (p.uidvalidityChanged && !s.cleared) f) s.pass.db
            (s.persist acc f p (m :: ms)).pass.db := rewrites_persist p s (m :: ms)
        rw [hcleared, wipe_false] at hpersist
        exact hpersist.trans (ih (k + 1) (Bool.and_false _))
      · exact Rewrites.refl f _
    · split
      · exact Rewrites.refl f _
      · exact rewrites_finishFolder hcleared hm

/-- Under a changed UIDVALIDITY the first committed batch wipes the folder. -/
theorem rewrites_first_chunk {p : PassPlan} (hp : p.uidvalidityChanged = true) (k : Nat)
    (batches : List (List Uid)) {s : ChunkState} (hs : s.cleared = false) :
    Rewrites f (wipe (commitsFirst r k batches) f) s.pass.db
      (finishChunks acc f r p [] (chunkLoop acc f r p k batches s)).2.db := by
  -- The loop ends without a batch: the final save is the first.
  have hfinal : Rewrites f (wipe r.finalTx f) s.pass.db (finishFolder acc f r p [] s).2.db := by
    unfold finishFolder
    rw [if_pos rfl, hp, hs]
    cases r.finalTx with
    | false => exact Rewrites.refl f _
    | true => exact rewrites_persistImapFolderBatch s.pass.db [] _ true
  induction batches generalizing k with
  | nil => exact hfinal
  | cons chunk rest ih =>
    unfold chunkLoop commitsFirst
    cases r.fetch k chunk with
    | error e =>
      dsimp only
      cases sessionMayBePoisoned e with
      | true => exact Rewrites.refl f _
      | false => exact hfinal
    | ok fetched =>
      cases fetched with
      | nil => exact ih (k + 1)
      | cons m ms =>
        dsimp only
        cases r.persistTx k with
        | false => exact Rewrites.refl f _
        | true =>
          have hpersist : Rewrites f (wipe (p.uidvalidityChanged && !s.cleared) f) s.pass.db
              (s.persist acc f p (m :: ms)).pass.db := rewrites_persist p s (m :: ms)
          rw [hp, hs] at hpersist
          refine (hpersist.trans (rewrites_chunks (fun _ => rfl) (k + 1) rest
            (Bool.and_false _))).congr ?_
          intro x
          exact Option.bind_fun_some _

theorem rewrites_syncMessages (p : PassPlan) (s : PassState)
    (hp : p.uidvalidityChanged = true → p.storedModseq = 0) :
    Rewrites f
      (wipe (p.uidvalidityChanged && match r.search p.afterUid with
        | .error _ => false
        | .ok newUids => commitsFirst r 0 (chunks metadataChunk newUids)) f)
      s.db (syncMessages acc f r p s).2.db := by
  unfold syncMessages
  cases hsearch : r.search p.afterUid with
  | error e =>
    dsimp only
    rw [Bool.and_false]
    exact Rewrites.refl f _
  | ok newUids =>
    cases hchanged : p.uidvalidityChanged with
    | false =>
      rw [Bool.false_and, wipe_false]
      cases changedMessages r p with
      | error e => exact Rewrites.refl f _
      | ok messages =>
        have hm : p.uidvalidityChanged = true → messages = [] := by
          intro h
          rw [hchanged] at h
          cases h
        exact rewrites_chunks hm 0 _ (s := ⟨s, p.chunkCursor, false⟩) (by rw [hchanged]; rfl)
    | true =>
      -- No mod-sequence survives a changed UIDVALIDITY, so nothing is asked for.
      have hnone : changedMessages r p = .ok [] := by
        unfold changedMessages
        rw [hp hchanged]
        simp
      have hall : fetchUids newUids [] = newUids := by
        unfold fetchUids
        simp
      rw [hnone, Bool.true_and]
      dsimp only
      rw [hall]
      exact rewrites_first_chunk hchanged 0 _ (s := ⟨s, p.chunkCursor, false⟩) rfl

theorem storedModseq_of_changed {cursor : Option SyncCursorInfo} {sel : ImapSelectResult}
    {condstore : Bool} (h : (passPlan cursor sel condstore).uidvalidityChanged = true) :
    (passPlan cursor sel condstore).storedModseq = 0 := by
  unfold passPlan at h ⊢
  dsimp only at h ⊢
  rw [if_pos h]

theorem rewrites_folderPass (db : Db) :
    Rewrites f (passFate db acc f r) db (folderPass db acc f r).2.db := by
  unfold folderPass passFate
  cases r.select with
  | error e => exact Rewrites.refl f db
  | ok sel =>
    have hprelude : Rewrites f (fun x => some (preludeFate db acc f r x)) db
        (passPrelude db acc f r).db := rewrites_passPrelude db
    dsimp only
    rw [loadCursor_passPrelude]
    unfold wipesFolder
    dsimp only
    cases r.loadTx with
    | false => exact hprelude
    | true =>
      rw [if_pos rfl, Bool.true_and]
      exact hprelude.trans (rewrites_syncMessages _ _ storedModseq_of_changed)

end Pass

/-! ## When a run leaves them alone -/

/-- No transaction of the pass hits the row. -/
structure SparesRow (acc : AccountId) (p : PassRecord) (sel : ImapSelectResult)
    (row : MessageRow) : Prop where
  body : repairs p.before p.folder p.replies = true →
    (isMojibake row.bodyText || isMojibake row.bodyHtml) = false
  listed : ∀ serverUids, reconciled p.replies = some serverUids →
    vanished acc p.folder serverUids row = false
  kept : wipesFolder p.before acc p.folder p.replies sel = false

/-- The pass spares every row of its folder that is not of its mailbox. -/
def SparesLocalRows (acc : AccountId) (p : PassRecord) : Prop :=
  ∀ sel, p.replies.select = .ok sel → ∀ row ∈ p.before.messages.rows, LocalTo p.folder row →
    row.folderId = p.folder → SparesRow acc p sel row

/-- Every pass leaves the rows alone that are not of its mailbox, and the run those that
are of none of the mailboxes it passes over. -/
structure LeavesLocalRows (db : Db) (run : AccountRun) : Prop where
  passes : ∀ p ∈ run.passes, ∀ row ∈ p.before.messages.rows, LocalTo p.folder row →
    row ∈ p.after.messages.rows
  run : ∀ row ∈ db.messages.rows, (∀ p ∈ run.passes, LocalTo p.folder row) →
    row ∈ run.db.messages.rows

section Fate

variable {acc : AccountId} {f : FolderId} {row : MessageRow}

/-- A reset that keeps both bodies found no mojibake in them. -/
theorem no_mojibake_of_bodies (ht : (resetMojibakeBody f row).bodyText = row.bodyText)
    (hh : (resetMojibakeBody f row).bodyHtml = row.bodyHtml) (hf : row.folderId = f) :
    (isMojibake row.bodyText || isMojibake row.bodyHtml) = false := by
  cases hm : isMojibake row.bodyText || isMojibake row.bodyHtml with
  | false => rfl
  | true =>
    unfold resetMojibakeBody at ht hh
    rw [hm, Bool.and_true, if_pos (beq_iff_eq.mpr hf)] at ht hh
    rw [← ht, ← hh] at hm
    cases hm

theorem resetMojibakeBody_eq_iff :
    resetMojibakeBody f row = row ↔
      (row.folderId = f → (isMojibake row.bodyText || isMojibake row.bodyHtml) = false) := by
  constructor
  · intro h
    exact no_mojibake_of_bodies (congrArg MessageRow.bodyText h) (congrArg MessageRow.bodyHtml h)
  · intro h
    unfold resetMojibakeBody
    rw [if_neg]
    intro hc
    obtain ⟨hf, hm⟩ := Bool.and_eq_true_iff.mp hc
    rw [h (beq_iff_eq.mp hf)] at hm
    cases hm

theorem markVanished_eq_iff {us : List Uid} :
    markVanished acc f us row = row ↔ vanished acc f us row = false := by
  unfold markVanished
  constructor
  · intro h
    cases hv : vanished acc f us row with
    | false => rfl
    | true =>
      rw [hv, if_pos rfl] at h
      have hd : true = row.isDeleted := congrArg MessageRow.isDeleted h
      unfold vanished at hv
      rw [← hd] at hv
      simp at hv
  · intro h
    rw [h, if_neg Bool.false_ne_true]

theorem wipe_eq_some_iff {wiped : Bool} {y : MessageRow} :
    wipe wiped f y = some row ↔ y = row ∧ (y.folderId = f → wiped = false) := by
  unfold wipe
  constructor
  · intro h
    split at h
    · cases h
    · rename_i hc
      refine ⟨Option.some.inj h, ?_⟩
      intro hf
      cases wiped with
      | false => rfl
      | true => exact absurd (by simp [hf]) hc
  · rintro ⟨rfl, h⟩
    rw [if_neg]
    intro hc
    obtain ⟨hw, hf⟩ := Bool.and_eq_true_iff.mp hc
    rw [h (beq_iff_eq.mp hf)] at hw
    cases hw

@[simp] theorem markVanished_bodyText (us : List Uid) :
    (markVanished acc f us row).bodyText = row.bodyText := by
  unfold markVanished
  split <;> rfl

@[simp] theorem markVanished_bodyHtml (us : List Uid) :
    (markVanished acc f us row).bodyHtml = row.bodyHtml := by
  unfold markVanished
  split <;> rfl

theorem preludeFate_eq_iff {db : Db} {r : FolderReplies} :
    preludeFate db acc f r row = row ↔
      (repairs db f r = true → resetMojibakeBody f row = row) ∧
        ∀ us, reconciled r = some us → vanished acc f us row = false := by
  unfold preludeFate
  dsimp only
  constructor
  · intro h
    -- The reconcile keeps the bodies, so a reset would show in the result.
    have hrep : repairs db f r = true → resetMojibakeBody f row = row := by
      intro hr
      rw [if_pos hr] at h
      split at h
      · exact h
      · rw [resetMojibakeBody_eq_iff]
        apply no_mojibake_of_bodies
        · exact (markVanished_bodyText _).symm.trans (congrArg MessageRow.bodyText h)
        · exact (markVanished_bodyHtml _).symm.trans (congrArg MessageRow.bodyHtml h)
    refine ⟨hrep, ?_⟩
    intro us hus
    have hself : (if repairs db f r then resetMojibakeBody f row else row) = row := by
      split
      · exact hrep ‹_›
      · rfl
    rw [hus, hself] at h
    exact markVanished_eq_iff.mp h
  · rintro ⟨hrep, hlisted⟩
    have hself : (if repairs db f r then resetMojibakeBody f row else row) = row := by
      split
      · exact hrep ‹_›
      · rfl
    rw [hself]
    cases hus : reconciled r with
    | none => rfl
    | some us => exact markVanished_eq_iff.mpr (hlisted us hus)

theorem vanished_of_folder_ne (hne : row.folderId ≠ f) (us : List Uid) :
    vanished acc f us row = false := by
  unfold vanished
  rw [beq_eq_false_iff_ne.mpr hne]
  simp

/-- What a pass leaves as it is. -/
theorem passFate_eq_some_iff {p : PassRecord} :
    passFate p.before acc p.folder p.replies row = some row ↔
      ∀ sel, p.replies.select = .ok sel → row.folderId = p.folder → SparesRow acc p sel row := by
  unfold passFate
  cases p.replies.select with
  | error e =>
    constructor
    · intro _ sel h
      cases h
    · intro _
      rfl
  | ok sel =>
    dsimp only
    rw [wipe_eq_some_iff, preludeFate_eq_iff]
    constructor
    · rintro ⟨⟨hrep, hlisted⟩, hwipe⟩ sel' hsel hf
      cases hsel
      have hself : preludeFate p.before acc p.folder p.replies row = row :=
        preludeFate_eq_iff.mpr ⟨hrep, hlisted⟩
      rw [hself] at hwipe
      exact ⟨fun hr => resetMojibakeBody_eq_iff.mp (hrep hr) hf, hlisted, hwipe hf⟩
    · intro h
      have hprelude : (repairs p.before p.folder p.replies = true →
          resetMojibakeBody p.folder row = row) ∧
          ∀ us, reconciled p.replies = some us → vanished acc p.folder us row = false := by
        constructor
        · intro hr
          exact resetMojibakeBody_eq_iff.mpr fun hf => (h sel rfl hf).body hr
        · intro us hus
          by_cases hf : row.folderId = p.folder
          · exact (h sel rfl hf).listed us hus
          · exact vanished_of_folder_ne hf us
      refine ⟨hprelude, ?_⟩
      rw [preludeFate_eq_iff.mpr hprelude]
      intro hf
      exact (h sel rfl hf).kept

end Fate

/-! ## Runs -/

section Run

variable {names : MailboxNames} {acc : AccountId} {db : Db}

/-- A recorded pass ended where its folder pass does. -/
def Recorded (acc : AccountId) (p : PassRecord) : Prop :=
  p.after = (folderPass p.before acc p.folder p.replies).2.db

theorem Recorded.kept_iff {p : PassRecord} (h : Recorded acc p) :
    (∀ row ∈ p.before.messages.rows, LocalTo p.folder row → row ∈ p.after.messages.rows) ↔
      SparesLocalRows acc p := by
  have hrow : ∀ row ∈ p.before.messages.rows, LocalTo p.folder row →
      (row ∈ p.after.messages.rows ↔ ∀ sel, p.replies.select = .ok sel →
        row.folderId = p.folder → SparesRow acc p sel row) := by
    intro row hrow hlocal
    rw [h, (rewrites_folderPass p.before).kept_iff hrow hlocal, passFate_eq_some_iff]
  constructor
  · intro hk sel hsel row hmem hlocal hf
    exact (hrow row hmem hlocal).mp (hk row hmem hlocal) sel hsel hf
  · intro hs row hmem hlocal
    exact (hrow row hmem hlocal).mpr fun sel hsel hf => hs sel hsel row hmem hlocal hf

theorem recorded_runImapSync (db : Db) (r : AccountReplies) :
    ∀ p ∈ (runImapSync names db acc r).2.passes, Recorded acc p := by
  refine runImapSync_rule (fun _ => True) (fun s => ∀ p ∈ s.passes, Recorded acc p)
    ?_ ?_ ?_ db r trivial
  · intro _ _ _
    trivial
  · intro _ _ p hp
    cases hp
  · intro s f r h p hp
    rcases List.mem_append.mp hp with hp | hp
    · exact h p hp
    · rw [List.mem_singleton] at hp
      subst hp
      rfl

/-- The state of the loop holds every row that each recorded pass kept. -/
def Carries (db : Db) (s : AccountRun) : Prop :=
  (∀ p ∈ s.passes, ∀ row ∈ p.before.messages.rows, LocalTo p.folder row →
    row ∈ p.after.messages.rows) →
  ∀ row ∈ db.messages.rows, (∀ p ∈ s.passes, LocalTo p.folder row) → row ∈ s.db.messages.rows

theorem carries_runImapSync (db : Db) (r : AccountReplies) :
    Carries db (runImapSync names db acc r).2 := by
  refine runImapSync_rule (fun d => d.messages = db.messages) (Carries db) ?_ ?_ ?_ db r rfl
  · intro d folder h
    exact h
  · intro d h _ row hrow _
    rw [h]
    exact hrow
  · intro s f r h hkept row hrow hlocal
    have hlast : (⟨f, r, s.db, (folderPass s.db acc f r).2.db⟩ : PassRecord) ∈
        (s.record f r (folderPass s.db acc f r).2).passes :=
      List.mem_append_right _ List.mem_cons_self
    have hbefore : row ∈ s.db.messages.rows := by
      apply h _ row hrow
      · intro p hp
        exact hlocal p (List.mem_append_left _ hp)
      · intro p hp
        exact hkept p (List.mem_append_left _ hp)
    exact hkept _ hlast row hbefore (hlocal _ hlast)

/-- **Sync leaves local-only rows alone** exactly in the runs whose every pass spares
them: commits no mojibake repair while such a row's body is mojibake, reconciles with no
listing that lacks the number the row's id ends with, and commits nothing under another
UIDVALIDITY than the stored one. -/
theorem local_rows_kept_iff (names : MailboxNames) (db : Db) (acc : AccountId)
    (r : AccountReplies) :
    LeavesLocalRows db (runImapSync names db acc r).2 ↔
      ∀ p ∈ (runImapSync names db acc r).2.passes, SparesLocalRows acc p := by
  have hrecorded : ∀ p ∈ (runImapSync names db acc r).2.passes, Recorded acc p :=
    recorded_runImapSync db r
  constructor
  · intro h p hp
    exact (hrecorded p hp).kept_iff.mp (h.passes p hp)
  · intro h
    have hpasses : ∀ p ∈ (runImapSync names db acc r).2.passes,
        ∀ row ∈ p.before.messages.rows, LocalTo p.folder row → row ∈ p.after.messages.rows :=
      fun p hp => (hrecorded p hp).kept_iff.mpr (h p hp)
    exact ⟨hpasses, carries_runImapSync db r hpasses⟩

end Run

/-! ## An imported message in a reset mailbox -/

/-- A message as the backup import stores it. -/
def importedRow : MessageRow where
  id := 1
  accountId := ['a']
  folderId := ['f']
  externalId := some ("import:".toList ++ List.replicate 64 'a')

/-- An inbox synced once under UIDVALIDITY 1, with an imported message. -/
def importedInbox : Db where
  messages := ⟨[importedRow], List.nodup_singleton _, List.pairwise_singleton _ _⟩
  folders := ⟨[⟨['f'], ['a'], some "INBOX".toList, "INBOX".toList, none, none, none, 0, 0, 0⟩],
    List.nodup_singleton _, List.pairwise_singleton _ _⟩
  cursors := ⟨[⟨['a'], ['f'], .uidvalidityUid ⟨1, 0, 0⟩⟩], List.nodup_singleton _,
    List.pairwise_singleton _ _⟩
  now := 0

/-- The server has an empty inbox, now under UIDVALIDITY 2; nothing fails. -/
def resetInbox : AccountReplies where
  connect := .ok ()
  list := .ok [⟨"INBOX".toList, some ['/'], []⟩]
  upsertTx _ := true
  lookup _ := true
  folder _ :=
    { condstore := false
      select := .ok ⟨2, none⟩
      repair := fun _ => .ok []
      repairTx := true
      listing := .ok []
      reconcileTx := true
      loadTx := true
      search := fun _ => .ok []
      changed := fun _ => .ok []
      fetch := fun _ _ => .ok []
      persistTx := fun _ => true
      finalTx := true }

/-- Mailbox names that need no decoding. -/
def plainNames : MailboxNames := ⟨id, Char.isAlphanum⟩

/-- The UIDVALIDITY reset deletes the imported message. -/
theorem reset_deletes_imported :
    ¬ LeavesLocalRows importedInbox (runImapSync plainNames importedInbox ['a'] resetInbox).2 := by
  intro h
  have hfolders : (runImapSync plainNames importedInbox ['a'] resetInbox).2.passes.map
      PassRecord.folder = [['f']] := by decide +kernel
  have hgone : (runImapSync plainNames importedInbox ['a'] resetInbox).2.db.messages.rows = [] := by
    decide +kernel
  have hlocal : ∀ p ∈ (runImapSync plainNames importedInbox ['a'] resetInbox).2.passes,
      LocalTo p.folder importedRow := by
    intro p hp u he
    have hf := List.mem_map_of_mem (f := PassRecord.folder) hp
    rw [hfolders, List.mem_singleton] at hf
    rw [hf] at he
    have hfirst := congrArg (Option.map List.head?) he
    cases hfirst
  have hrow := h.run importedRow (List.mem_singleton.mpr rfl) hlocal
  rw [hgone] at hrow
  cases hrow

end Lyra
