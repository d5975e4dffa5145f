import Lyra.Jmap.Gather

/-!
# What a JMAP run writes

Of the message table a run writes batches and deletes of the account, and nothing else.
A relation on databases that these two keep is kept by every run, however it ends.
-/

namespace Lyra

open Lyra.Lib Lyra.Lib.Fallible

/-- A relation that the writes of a run keep. -/
structure KeptByWrites (acc : AccountId) (R : Db → Db → Prop) : Prop where
  /-- Folder rows and cursors do not matter. -/
  frame : ∀ db db', db'.messages = db.messages → R db db'
  trans : ∀ db₁ db₂ db₃, R db₁ db₂ → R db₂ db₃ → R db₁ db₃
  persist : ∀ db folder emails qs, R db (persistJmapFolderBatch db acc folder emails qs).2
  delete : ∀ db ids,
    R db { db with messages := db.messages.deleteWhere (hasExternalId acc ids) }

/-- The relation between the databases of two states of a run. -/
def OnDb (R : Db → Db → Prop) (s t : SyncRun) : Prop := R s.db t.db

section Writes

variable {fails : Nat → Option SyncError} {seam : Seam} {acc : AccountId} {R : Db → Db → Prop}
  (h : KeptByWrites acc R)
include h

theorem KeptByWrites.refl (s : SyncRun) : OnDb R s s := h.frame _ _ rfl

theorem KeptByWrites.comp (s t u : SyncRun) (hst : OnDb R s t) (htu : OnDb R t u) : OnDb R s u :=
  h.trans _ _ _ hst htu

theorem KeptByWrites.sameMail {α : Type} {m : SyncM α} (hm : Keeps SameMail m) :
    Keeps (OnDb R) m := fun s => h.frame _ _ (hm s).messages

theorem KeptByWrites.then {α β : Type} {m : SyncM α} {f : α → SyncM β} (hm : Keeps (OnDb R) m)
    (hf : ∀ a, Keeps (OnDb R) (f a)) : Keeps (OnDb R) (m >>= f) :=
  keeps_bind h.comp hm hf

theorem KeptByWrites.pure {α : Type} (a : α) : Keeps (OnDb R) (pure a : SyncM α) :=
  keeps_pure h.refl a

theorem KeptByWrites.throw {α : Type} (e : SyncError) : Keeps (OnDb R) (throw e : SyncM α) :=
  keeps_throw h.refl e

theorem KeptByWrites.await : Keeps (OnDb R) (awaitCall fails) := h.sameMail sameMail_awaitCall

theorem KeptByWrites.select {α : Type} (f : Db → α) : Keeps (OnDb R) (select fails f) :=
  h.sameMail (sameMail_select f)

theorem KeptByWrites.note {f : SyncRun → SyncRun} (hf : ∀ s, (f s).db = s.db) :
    Keeps (OnDb R) (modify f : SyncM PUnit) :=
  keeps_modify fun s => h.frame _ _ (congrArg Db.messages (hf s))

theorem KeptByWrites.noteThen {β : Type} {f : SyncRun → SyncRun} {g : PUnit → SyncM β}
    (hg : ∀ a, Keeps (OnDb R) (g a)) (hf : ∀ s, (f s).db = s.db) :
    Keeps (OnDb R) ((modify f : SyncM PUnit) >>= g) :=
  h.then (h.note hf) hg

theorem KeptByWrites.writeThen {β : Type} {f : Db → Db} {g : PUnit → SyncM β}
    (hg : ∀ a, Keeps (OnDb R) (g a)) (hf : ∀ db, R db (f db)) :
    Keeps (OnDb R) ((modify fun s => { s with db := f s.db } : SyncM PUnit) >>= g) :=
  h.then (keeps_modify fun s => hf s.db) hg

theorem KeptByWrites.execute {f : Db → Db} (hf : ∀ db, (f db).messages = db.messages) :
    Keeps (OnDb R) (execute fails f) := by
  apply h.then h.await
  intro _
  exact keeps_modify fun s => h.frame _ _ (hf s.db)

theorem KeptByWrites.executeThen {β : Type} {f : Db → Db} {g : Unit → SyncM β}
    (hg : ∀ a, Keeps (OnDb R) (g a)) (hf : ∀ db, (f db).messages = db.messages) :
    Keeps (OnDb R) (Lyra.execute fails f >>= g) :=
  h.then (h.execute hf) hg

theorem KeptByWrites.persistAndDownload (folder : FolderId) (emails : List JmapEmail)
    (qs : Option Nat) : Keeps (OnDb R) (persistAndDownload fails acc folder emails qs) := by
  apply h.then (h.select _)
  intro _
  refine h.writeThen (fun _ => ?_) fun db => h.persist db folder emails qs
  apply h.then
  · unfold downloadAttachments
    split
    · exact h.pure _
    · exact h.await
  · intro _
    exact h.pure _

theorem KeptByWrites.resolveJmapEmailFolder (mbs : List MailboxId) :
    Keeps (OnDb R) (resolveJmapEmailFolder fails acc mbs) := by
  induction mbs with
  | nil => exact h.pure _
  | cons mb mbs ih =>
    unfold Lyra.resolveJmapEmailFolder
    apply h.then (h.select _)
    intro found
    cases found with
    | none => exact ih
    | some folder => exact h.pure _

theorem KeptByWrites.groupByFolder (emails : List JmapEmail)
    (groups : List (FolderId × List JmapEmail)) :
    Keeps (OnDb R) (groupByFolder fails acc emails groups) := by
  induction emails generalizing groups with
  | nil => exact h.pure _
  | cons email emails ih =>
    unfold Lyra.groupByFolder
    refine h.noteThen (fun _ => ?_) fun _ => rfl
    apply h.then (h.resolveJmapEmailFolder _)
    intro found
    cases found with
    | none => exact ih _
    | some folder => exact ih _

theorem KeptByWrites.persistGroups (groups : List (FolderId × List JmapEmail)) :
    Keeps (OnDb R) (persistGroups fails acc groups) := by
  induction groups with
  | nil => exact h.pure _
  | cons g groups ih =>
    unfold Lyra.persistGroups
    apply h.then (h.persistAndDownload _ _ _)
    intro _
    apply h.then ih
    intro _
    exact h.pure _

theorem KeptByWrites.refetchChunks (k : Nat) (cs : List (List EmailId)) :
    Keeps (OnDb R) (refetchChunks fails seam acc k cs) := by
  induction cs generalizing k with
  | nil => exact h.pure _
  | cons chunk cs ih =>
    unfold Lyra.refetchChunks
    apply h.then h.await
    intro _
    apply h.then (h.groupByFolder _ _)
    intro _
    apply h.then (h.persistGroups _)
    intro _
    apply h.then (ih _)
    intro _
    exact h.pure _

theorem KeptByWrites.changesPages (pages k since : Nat) (updated destroyed : List EmailId) :
    Keeps (OnDb R) (changesPages fails seam pages k since updated destroyed) := by
  induction pages generalizing k since updated destroyed with
  | zero => exact h.pure _
  | succ pages ih =>
    unfold Lyra.changesPages
    apply h.then h.await
    intro _
    split
    · exact h.pure _
    · split
      · exact ih _ _ _ _
      · exact h.pure _

theorem KeptByWrites.seedEmailState : Keeps (OnDb R) (seedEmailState fails seam) := by
  unfold Lyra.seedEmailState
  split
  · exact h.pure _
  · apply h.then h.await
    intro _
    exact h.note fun _ => rfl

theorem KeptByWrites.syncEmailChanges (anchor : Option FolderId) :
    Keeps (OnDb R) (syncEmailChanges fails seam acc anchor) := by
  cases anchor with
  | none => exact h.pure _
  | some anchor =>
    unfold Lyra.syncEmailChanges
    apply h.then (h.select _)
    intro state
    cases state with
    | none =>
      apply h.then h.seedEmailState
      intro _
      exact h.pure _
    | some since =>
      apply h.then (h.changesPages _ _ _ _ _)
      intro changes
      cases changes with
      | some changes =>
        refine h.noteThen (fun _ => ?_) fun _ => rfl
        exact h.refetchChunks _ _
      | none =>
        refine h.executeThen (fun _ => ?_) fun _ => rfl
        apply h.then h.seedEmailState
        intro _
        exact h.pure _

theorem KeptByWrites.queryPages (folder : FolderId) (mb : MailboxId) (fuel k : Nat) :
    Keeps (OnDb R) (queryPages fails seam acc folder mb fuel k) := by
  induction fuel generalizing k with
  | zero => exact h.throw _
  | succ fuel ih =>
    unfold Lyra.queryPages
    apply h.then h.await
    intro _
    refine h.noteThen (fun _ => ?_) fun _ => rfl
    dsimp only
    split
    · exact h.persistAndDownload _ _ _
    · apply h.then (h.persistAndDownload _ _ _)
      intro _
      apply h.then (ih _)
      intro _
      exact h.pure _

theorem KeptByWrites.addedChunks (folder : FolderId) (mb : MailboxId) (qs : Option Nat) (k : Nat)
    (cs : List (List EmailId)) :
    Keeps (OnDb R) (addedChunks fails seam acc folder mb qs k cs) := by
  induction cs generalizing k with
  | nil => exact h.pure _
  | cons chunk cs ih =>
    unfold Lyra.addedChunks
    apply h.then h.await
    intro _
    dsimp only
    refine h.noteThen (fun _ => ?_) fun _ => rfl
    apply h.then (h.persistAndDownload _ _ _)
    intro _
    apply h.then (ih _)
    intro _
    exact h.pure _

theorem KeptByWrites.persistAdded (folder : FolderId) (mb : MailboxId)
    (changes : EmailQueryChanges) : Keeps (OnDb R) (persistAdded fails seam acc folder mb changes) := by
  unfold Lyra.persistAdded
  split
  · exact h.persistAndDownload _ _ _
  · exact h.addedChunks _ _ _ _ _

theorem KeptByWrites.syncMailbox (fuel : Nat) (mb : MailboxId) :
    Keeps (OnDb R) (syncMailbox fails seam acc fuel mb) := by
  unfold Lyra.syncMailbox
  apply h.then (h.select _)
  intro found
  cases found with
  | none => exact h.throw _
  | some folder =>
    apply h.then (h.select _)
    intro cursor
    cases cursor with
    | none => exact h.queryPages _ _ _ _
    | some state =>
      apply h.then h.await
      intro _
      split
      · refine h.noteThen (fun _ => ?_) fun _ => rfl
        exact h.persistAdded _ _ _
      · refine h.executeThen (fun _ => ?_) fun _ => rfl
        exact h.queryPages _ _ _ _

theorem KeptByWrites.syncMailboxes (fuel : Nat) (mbs : List JmapMailbox) :
    Keeps (OnDb R) (syncMailboxes fails seam acc fuel mbs) := by
  induction mbs with
  | nil => exact h.pure _
  | cons mb mbs ih =>
    unfold Lyra.syncMailboxes
    apply h.then (h.syncMailbox _ _)
    intro _
    apply h.then ih
    intro _
    exact h.pure _

theorem KeptByWrites.deleteChunks (cs : List (List EmailId)) :
    Keeps (OnDb R) (deleteChunks fails acc cs) := by
  induction cs with
  | nil => exact h.pure _
  | cons chunk cs ih =>
    unfold Lyra.deleteChunks
    apply h.then
    · unfold deleteChunk
      apply h.then (h.select _)
      intro _
      apply h.then (h.select _)
      intro _
      exact h.writeThen (fun _ => h.pure _) fun db => h.delete db chunk
    · intro _
      apply h.then ih
      intro _
      exact h.pure _

theorem KeptByWrites.deleteJmapMessages (ids : List EmailId) :
    Keeps (OnDb R) (deleteJmapMessages fails acc ids) := by
  unfold Lyra.deleteJmapMessages
  apply h.then (h.deleteChunks _)
  intro _
  apply h.then
  · exact keeps_forEach h.refl h.comp fun _ _ => h.execute fun _ => rfl
  · intro _
    exact h.pure _

theorem KeptByWrites.gather (fuel : Nat) : Keeps (OnDb R) (gather fails seam acc fuel) := by
  unfold Lyra.gather
  apply h.then h.await
  intro _
  apply h.then
  · exact keeps_forEach h.refl h.comp fun mb _ => h.sameMail (sameMail_upsertMailbox mb)
  · intro _
    apply h.then
    · exact keeps_forEach h.refl h.comp fun mb _ => h.sameMail (sameMail_linkParent mb)
    · intro _
      apply h.then (h.sameMail sameMail_emailStateAnchor)
      intro anchor
      apply h.then (h.syncEmailChanges anchor)
      intro _
      apply h.then (h.syncMailboxes _ _)
      intro _
      exact h.pure _

theorem KeptByWrites.commitEmailState (anchor : Option FolderId) (state : Option Nat) :
    Keeps (OnDb R) (commitEmailState fails acc anchor state) := by
  unfold Lyra.commitEmailState
  split
  · exact h.execute fun _ => rfl
  · exact h.pure _

/-- Every run keeps the relation. -/
theorem KeptByWrites.runJmapSync (fuel : Nat) : Keeps (OnDb R) (runJmapSync fails seam acc fuel) := by
  unfold Lyra.runJmapSync
  apply h.then (h.gather _)
  intro _
  apply h.then (keeps_get h.refl)
  intro _
  apply h.then (h.deleteJmapMessages _)
  intro _
  apply h.then (h.commitEmailState _ _)
  intro _
  exact h.pure _

end Writes

end Lyra
