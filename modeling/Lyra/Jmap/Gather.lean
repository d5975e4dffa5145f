import Lyra.Jmap.FullQuery

/-!
# What a run gathers

The first three steps of a run in terms of its inputs: the database with the mailboxes'
folders in place, the stored states, and the answers.

`Kept` bounds what a run writes before it deletes, however it ends; the `returns_` lemmas
say what it has gathered when it comes to the deletions.
-/

namespace Lyra

open Lyra.Lib Fallible

/-! ## Inputs -/

/-- Step 1 without failures: the folders of the mailboxes and their parents. -/
def prepareFolders (db : Db) (acc : AccountId) (mbs : List JmapMailbox) : Db :=
  let linked (db : Db) (mb : JmapMailbox) : Db :=
    match mb.parentId with
    | none => db
    | some parent => (linkJmapFolderParent db acc mb.id parent).getD db
  mbs.foldl linked
    (mbs.foldl (fun db mb => upsertJmapFolder db acc mb.id mb.name mb.folderRole) db)

def anchorOf (db : Db) (acc : AccountId) : Option FolderId :=
  (folderIdForRole db acc "inbox".toList).or (firstFolderId db acc)

/-- The stored query state of a mailbox. -/
def cursorOf (db : Db) (acc : AccountId) (mb : MailboxId) : Option Nat :=
  (findFolderId db acc mb).bind (loadJmapCursor db acc)

/-- The stored email state. -/
def emailStateOf (db : Db) (acc : AccountId) : Option Nat :=
  (anchorOf db acc).bind (loadJmapEmailState db acc)

/-- The pages of `Email/changes` put together. -/
def Seam.collectChanges (seam : Seam) :
    Nat → Nat → Nat → List EmailId → List EmailId → Option JmapEmailChanges
  | 0, _, since, updated, destroyed => some ⟨updated, destroyed, some since⟩
  | pages + 1, k, since, updated, destroyed =>
    match seam.changesEmail k since with
    | none => none
    | some resp =>
      if resp.hasMoreChanges then
        seam.collectChanges pages (k + 1) resp.newState (updated ++ resp.updated)
          (destroyed ++ resp.destroyed)
      else some ⟨updated ++ resp.updated, destroyed ++ resp.destroyed, some resp.newState⟩

section Inputs

variable (seam : Seam) (acc : AccountId) (db : Db)

/-- What `Email/changes` tells the run; absent without a state and when it is stale. -/
def changesOf : Option JmapEmailChanges :=
  (emailStateOf db acc).bind fun since => seam.collectChanges changesMaxPages 0 since [] []

/-- What `Email/queryChanges` tells about a mailbox; absent without a state and when it is
stale, and then the mailbox is queried in full. -/
def deltaOf (mb : MailboxId) : Option EmailQueryChanges :=
  (cursorOf db acc mb).bind (seam.queryEmailChanges mb)

def RemovedFrom (mb : MailboxId) (id : EmailId) : Prop :=
  ∃ changes, deltaOf seam acc db mb = some changes ∧ id ∈ changes.removedIds

def AddedTo (mb : MailboxId) (id : EmailId) : Prop :=
  ∃ changes, deltaOf seam acc db mb = some changes ∧ id ∈ changes.addedIds

/-- On a page of the mailbox's full query. -/
def ListedIn (mb : MailboxId) (id : EmailId) : Prop :=
  deltaOf seam acc db mb = none ∧
    ∃ k, (∀ j, j < k → queryPage ≤ (seam.page mb j).ids.length) ∧ id ∈ (seam.page mb k).ids

/-- Destroyed according to `Email/changes`. -/
def ReportedDestroyed (id : EmailId) : Prop :=
  ∃ changes, changesOf seam acc db = some changes ∧ id ∈ changes.destroyedIds

/-- Updated according to `Email/changes`, and still there when fetched again. -/
def FetchedAgain (id : EmailId) : Prop :=
  ∃ changes, changesOf seam acc db = some changes ∧
    ∃ k chunk, (chunks queryPage changes.updatedIds)[k]? = some chunk ∧
      id ∈ (seam.getUpdated k chunk).1.map JmapEmail.id

/-- What the run counts as re-fetched. -/
def Refetched (id : EmailId) : Prop :=
  FetchedAgain seam acc db id ∨
    ∃ mb ∈ seam.mailboxes, AddedTo seam acc db mb.id id ∨ ListedIn seam acc db mb.id id

end Inputs

/-! ## What a run may write -/

/-- Rows are only added, for ids of `G`; cursors are kept or written as `W` allows; the
folders keep their ids. -/
structure Kept (acc : AccountId) (G : EmailId → Prop)
    (W : AccountId × FolderId × CursorType → Option CursorRow → Prop) (s t : SyncRun) : Prop where
  folders : ∀ mb, findFolderId t.db acc mb = findFolderId s.db acc mb
  grows : ∀ id, s.db.Stored acc id → t.db.Stored acc id
  stored : ∀ id, t.db.Stored acc id → s.db.Stored acc id ∨ G id
  refetched : ∀ id ∈ t.refetched, id ∈ s.refetched ∨ G id
  cursors : ∀ k, t.db.cursors.find k = s.db.cursors.find k ∨ W k (t.db.cursors.find k)

section Kept

variable {acc : AccountId} {G : EmailId → Prop}
  {W : AccountId × FolderId × CursorType → Option CursorRow → Prop}

theorem Kept.refl (s : SyncRun) : Kept acc G W s s :=
  ⟨fun _ => rfl, fun _ h => h, fun _ h => .inl h, fun _ h => .inl h, fun _ => .inl rfl⟩

theorem Kept.trans (s t u : SyncRun) (h : Kept acc G W s t) (h' : Kept acc G W t u) :
    Kept acc G W s u where
  folders := fun mb => (h'.folders mb).trans (h.folders mb)
  grows := fun id hid => h'.grows id (h.grows id hid)
  stored := fun id hid => (h'.stored id hid).elim (h.stored id) .inr
  refetched := fun id hid => (h'.refetched id hid).elim (h.refetched id) .inr
  cursors := by
    intro k
    rcases h'.cursors k with e | hw
    · rw [e]
      exact h.cursors k
    · exact .inr hw

theorem Kept.of_db {s t : SyncRun} (hdb : t.db = s.db)
    (hre : ∀ id ∈ t.refetched, id ∈ s.refetched ∨ G id) : Kept acc G W s t := by
  refine ⟨?_, ?_, ?_, hre, ?_⟩ <;> rw [hdb]
  · exact fun _ => rfl
  · exact fun _ h => h
  · exact fun _ h => .inl h
  · exact fun _ => .inl rfl

theorem find_id_updateWhere (t : FolderTable) (p : FolderRow → Bool) (g : FolderRow → FolderRow)
    (hpk : ∀ f, (g f).id = f.id) (hkey : ∀ f, (g f).key = f.key) (mb : MailboxId) :
    ((t.updateWhere p g hpk hkey).find (acc, mb)).map FolderRow.id =
      (t.find (acc, mb)).map FolderRow.id := by
  rw [KeyedTable.find_updateWhere, Option.map_map]
  congr 1
  funext f
  simp only [Function.comp]
  split
  · exact hpk f
  · rfl

theorem findFolderId_updateFolderCountsInTx (db : Db) (f : FolderId) (mb : MailboxId) :
    findFolderId (updateFolderCountsInTx db f) acc mb = findFolderId db acc mb := by
  unfold findFolderId updateFolderCountsInTx
  apply find_id_updateWhere
  · exact fun _ => rfl
  · exact fun _ => rfl

theorem findFolderId_persistJmapFolderBatch (db : Db) (f : FolderId) (ms : List JmapEmail)
    (qs : Option Nat) (mb : MailboxId) :
    findFolderId (persistJmapFolderBatch db acc f ms qs).2 acc mb = findFolderId db acc mb := by
  have h := (upsertJmapMessages_frame db acc f ms).2
  have hfind : ∀ db' : Db, db'.folders = db.folders →
      findFolderId (updateFolderCountsInTx db' f) acc mb = findFolderId db acc mb := by
    intro db' hdb'
    rw [findFolderId_updateFolderCountsInTx, findFolderId, hdb']
    rfl
  cases qs with
  | none => exact hfind _ h
  | some q => exact hfind _ h

/-- Persisting a batch. -/
theorem Kept.persist {s : SyncRun} {folder : FolderId} {emails : List JmapEmail} {qs : Option Nat}
    (hG : ∀ e ∈ emails, G e.id)
    (hW : ∀ q, qs = some q → W (acc, folder, .stateToken) (some ⟨acc, folder, .stateToken q⟩))
    (n : Nat) :
    Kept acc G W s
      { s with calls := n, db := (persistJmapFolderBatch s.db acc folder emails qs).2 } where
  folders := fun mb => findFolderId_persistJmapFolderBatch _ _ _ _ mb
  grows := fun id hid => (stored_persistJmapFolderBatch _ _ _ _ _ id).mpr (.inl hid)
  stored := by
    intro id hid
    rcases (stored_persistJmapFolderBatch _ _ _ _ _ id).mp hid with h | h
    · exact .inl h
    · obtain ⟨e, he, rfl⟩ := List.mem_map.mp h
      exact .inr (hG e he)
  refetched := fun id hid => .inl hid
  cursors := by
    intro k
    have h := find_cursors_persistJmapFolderBatch s.db acc folder emails qs k
    cases qs with
    | none => exact .inl h
    | some q =>
      dsimp only at h ⊢
      rw [h]
      split
      case isTrue e => subst e; exact .inr (hW q rfl)
      case isFalse => exact .inl rfl

variable {fails : Nat → Option SyncError} {seam : Seam}

theorem outcome_awaitCall (s : SyncRun) :
    ((awaitCall fails).outcome s).2 = { s with calls := s.calls + 1 } := by
  unfold awaitCall
  rw [outcome_bind, outcome_get]
  dsimp only
  rw [outcome_bind, outcome_set]
  dsimp only
  cases fails s.calls with
  | none => rfl
  | some e => rfl

theorem keeps_awaitCall : Keeps (Kept acc G W) (awaitCall fails) := by
  intro s
  rw [outcome_awaitCall]
  exact .of_db rfl fun _ h => .inl h

theorem keeps_select {α : Type} (f : Db → α) : Keeps (Kept acc G W) (select fails f) := by
  apply keeps_bind Kept.trans keeps_awaitCall
  intro _
  apply keeps_bind Kept.trans (keeps_get Kept.refl)
  intro _
  exact keeps_pure Kept.refl _

theorem keeps_persistAndDownload {folder : FolderId} {emails : List JmapEmail} {qs : Option Nat}
    (hG : ∀ e ∈ emails, G e.id)
    (hW : ∀ q, qs = some q → W (acc, folder, .stateToken) (some ⟨acc, folder, .stateToken q⟩)) :
    Keeps (Kept acc G W) (persistAndDownload fails acc folder emails qs) := by
  apply keeps_bind Kept.trans (keeps_select _)
  intro tally
  apply keeps_bind Kept.trans (keeps_modify fun s => Kept.persist hG hW s.calls)
  intro _
  apply keeps_bind Kept.trans
  · unfold downloadAttachments
    split
    · exact keeps_pure Kept.refl _
    · exact keeps_awaitCall
  · intro _
    exact keeps_pure Kept.refl _

/-! ## Step 2 -/

theorem keeps_resolveJmapEmailFolder (mbs : List MailboxId) :
    Keeps (Kept acc G W) (resolveJmapEmailFolder fails acc mbs) := by
  induction mbs with
  | nil => exact keeps_pure Kept.refl _
  | cons mb mbs ih =>
    unfold resolveJmapEmailFolder
    apply keeps_bind Kept.trans (keeps_select _)
    intro found
    cases found with
    | none => exact ih
    | some folder => exact keeps_pure Kept.refl _

/-- The emails of the groups come from the fetched ones. -/
theorem mem_addToFolder {folder : FolderId} {email : JmapEmail}
    {groups : List (FolderId × List JmapEmail)} {g : FolderId × List JmapEmail}
    (hg : g ∈ addToFolder folder email groups) {e : JmapEmail} (he : e ∈ g.2) :
    e = email ∨ ∃ g' ∈ groups, e ∈ g'.2 := by
  induction groups with
  | nil =>
    obtain rfl := List.mem_singleton.mp hg
    exact .inl (List.mem_singleton.mp he)
  | cons g₀ groups ih =>
    obtain ⟨f, es⟩ := g₀
    unfold addToFolder at hg
    split at hg
    · rcases List.mem_cons.mp hg with rfl | hg
      · rcases List.mem_append.mp he with he | he
        · exact .inr ⟨(f, es), List.mem_cons_self, he⟩
        · exact .inl (List.mem_singleton.mp he)
      · exact .inr ⟨g, List.mem_cons_of_mem _ hg, he⟩
    · rcases List.mem_cons.mp hg with rfl | hg
      · exact .inr ⟨(f, es), List.mem_cons_self, he⟩
      · rcases ih hg with rfl | ⟨g', hg', he'⟩
        · exact .inl rfl
        · exact .inr ⟨g', List.mem_cons_of_mem _ hg', he'⟩

theorem keeps_groupByFolder (emails : List JmapEmail) (hG : ∀ e ∈ emails, G e.id)
    (groups : List (FolderId × List JmapEmail)) :
    Keeps (Kept acc G W) (groupByFolder fails acc emails groups) := by
  induction emails generalizing groups with
  | nil => exact keeps_pure Kept.refl _
  | cons email emails ih =>
    have hrest := ih fun e he => hG e (List.mem_cons_of_mem _ he)
    unfold groupByFolder
    apply keeps_bind Kept.trans
    · apply keeps_modify
      intro s
      apply Kept.of_db
      · rfl
      · intro id hid
        rcases List.mem_cons.mp hid with rfl | hid
        · exact .inr (hG email List.mem_cons_self)
        · exact .inl hid
    · intro _
      apply keeps_bind Kept.trans (keeps_resolveJmapEmailFolder _)
      intro found
      cases found with
      | none => exact hrest _
      | some folder => exact hrest _

theorem groups_of_returns {emails : List JmapEmail} {groups out : List (FolderId × List JmapEmail)}
    {s t : SyncRun} (h : Returns (groupByFolder fails acc emails groups) s out t) :
    ∀ g ∈ out, ∀ e ∈ g.2, e ∈ emails ∨ ∃ g' ∈ groups, e ∈ g'.2 := by
  induction emails generalizing groups s with
  | nil =>
    obtain ⟨rfl, -⟩ := returns_pure.mp h
    exact fun g hg e he => .inr ⟨g, hg, he⟩
  | cons email emails ih =>
    unfold groupByFolder at h
    obtain ⟨_, s₁, -, h⟩ := returns_bind.mp h
    obtain ⟨found, s₂, -, h⟩ := returns_bind.mp h
    cases found with
    | none =>
      intro g hg e he
      rcases ih h g hg e he with hmem | hmem
      · exact .inl (List.mem_cons_of_mem _ hmem)
      · exact .inr hmem
    | some folder =>
      intro g hg e he
      rcases ih h g hg e he with hmem | ⟨g', hg', he'⟩
      · exact .inl (List.mem_cons_of_mem _ hmem)
      · rcases mem_addToFolder hg' he' with rfl | hmem
        · exact .inl List.mem_cons_self
        · exact .inr hmem

theorem keeps_persistGroups (groups : List (FolderId × List JmapEmail))
    (hG : ∀ g ∈ groups, ∀ e ∈ g.2, G e.id) :
    Keeps (Kept acc G W) (persistGroups fails acc groups) := by
  induction groups with
  | nil => exact keeps_pure Kept.refl _
  | cons g groups ih =>
    unfold persistGroups
    apply keeps_bind Kept.trans
      (keeps_persistAndDownload (hG g List.mem_cons_self) fun q hq => by cases hq)
    intro _
    apply keeps_bind Kept.trans (ih fun g' hg' => hG g' (List.mem_cons_of_mem _ hg'))
    intro _
    exact keeps_pure Kept.refl _

theorem keeps_refetchChunks (cs : List (List EmailId)) (k : Nat)
    (hG : ∀ i chunk, cs[i]? = some chunk → ∀ e ∈ (seam.getUpdated (k + i) chunk).1, G e.id) :
    Keeps (Kept acc G W) (refetchChunks fails seam acc k cs) := by
  induction cs generalizing k with
  | nil => exact keeps_pure Kept.refl _
  | cons chunk cs ih =>
    have hhead := hG 0 chunk rfl
    unfold refetchChunks
    apply keeps_bind Kept.trans keeps_awaitCall
    intro _ s
    apply outcome_bind_of_returns Kept.trans (keeps_groupByFolder _ hhead _ s)
    intro groups t hgroups
    apply keeps_bind Kept.trans
    · apply keeps_persistGroups
      intro g hg e he
      rcases groups_of_returns hgroups g hg e he with hmem | ⟨_, hmem, _⟩
      · exact hhead e hmem
      · cases hmem
    · intro _
      apply keeps_bind Kept.trans
      · apply ih
        intro i chunk' hi e he
        apply hG (i + 1) chunk' hi e
        rw [show k + (i + 1) = k + 1 + i by omega]
        exact he
      · intro _
        exact keeps_pure Kept.refl _

theorem keeps_changesPages (pages k since : Nat) (updated destroyed : List EmailId) :
    Keeps (Kept acc G W) (changesPages fails seam pages k since updated destroyed) := by
  induction pages generalizing k since updated destroyed with
  | zero => exact keeps_pure Kept.refl _
  | succ pages ih =>
    unfold changesPages
    apply keeps_bind Kept.trans keeps_awaitCall
    intro _
    split
    · exact keeps_pure Kept.refl _
    · split
      · exact ih _ _ _ _
      · exact keeps_pure Kept.refl _

/-- What the pages of `Email/changes` return. -/
theorem changes_of_returns {pages k since : Nat} {updated destroyed : List EmailId}
    {s t : SyncRun} {out : Option JmapEmailChanges}
    (h : Returns (changesPages fails seam pages k since updated destroyed) s out t) :
    out = seam.collectChanges pages k since updated destroyed := by
  induction pages generalizing k since updated destroyed s with
  | zero => exact (returns_pure.mp h).1
  | succ pages ih =>
    unfold changesPages at h
    obtain ⟨_, s₁, -, h⟩ := returns_bind.mp h
    unfold Seam.collectChanges
    cases hresp : seam.changesEmail k since with
    | none =>
      rw [hresp] at h
      exact (returns_pure.mp h).1
    | some resp =>
      rw [hresp] at h
      dsimp only at h ⊢
      split at h
      case isTrue hmore =>
        rw [if_pos hmore]
        exact ih h
      case isFalse hmore =>
        rw [if_neg hmore]
        exact (returns_pure.mp h).1

theorem keeps_noteEmailState (state : Option Nat) :
    Keeps (Kept acc G W) (modify fun s => s.noteEmailState state : SyncM Unit) :=
  keeps_modify fun _ => .of_db rfl fun _ h => .inl h

theorem keeps_seedEmailState : Keeps (Kept acc G W) (seedEmailState fails seam) := by
  unfold seedEmailState
  split
  · exact keeps_pure Kept.refl _
  · apply keeps_bind Kept.trans keeps_awaitCall
    intro _
    exact keeps_noteEmailState _

theorem keeps_execute_cursors {f : Db → Db} (hm : ∀ db, (f db).messages = db.messages)
    (hf : ∀ db, (f db).folders = db.folders)
    (hc : ∀ db k, (f db).cursors.find k = db.cursors.find k ∨ W k ((f db).cursors.find k)) :
    Keeps (Kept acc G W) (execute fails f) := by
  apply keeps_bind Kept.trans keeps_awaitCall
  intro _
  apply keeps_modify
  intro s
  refine ⟨?_, ?_, ?_, fun _ h => .inl h, hc s.db⟩
  · intro mb
    rw [findFolderId, findFolderId, hf]
  · intro id hid
    rw [Db.Stored, hm]
    exact hid
  · intro id hid
    rw [Db.Stored, hm] at hid
    exact .inl hid

theorem find_clearStateCursor (db : Db) (f : FolderId) (type : CursorType)
    (k : AccountId × FolderId × CursorType) :
    (clearStateCursor db acc f type).cursors.find k =
      if k = (acc, f, type) then none else db.cursors.find k := by
  unfold clearStateCursor
  rw [KeyedTable.find_deleteWhere]
  cases h : db.cursors.find k with
  | none => split <;> rfl
  | some c =>
    obtain ⟨-, hk⟩ := (db.cursors.find_eq_some_iff k c).mp h
    have hpk : c.pk = k := Option.some.inj hk
    rw [← hpk]
    split
    case isTrue e => simp [Option.filter, e]
    case isFalse e => simp [Option.filter, e]

theorem keeps_clearStateCursor {f : FolderId} {type : CursorType} (hW : W (acc, f, type) none) :
    Keeps (Kept acc G W) (execute fails fun db => clearStateCursor db acc f type) := by
  apply keeps_execute_cursors
  · exact fun _ => rfl
  · exact fun _ => rfl
  · intro db k
    rw [find_clearStateCursor]
    split
    case isTrue e => subst e; exact .inr hW
    case isFalse => exact .inl rfl

theorem kept_syncEmailChanges {anchor : Option FolderId} {s : SyncRun}
    (hG : ∀ since changes, anchor.bind (loadJmapEmailState s.db acc) = some since →
      seam.collectChanges changesMaxPages 0 since [] [] = some changes →
      ∀ k chunk, (chunks queryPage changes.updatedIds)[k]? = some chunk →
        ∀ e ∈ (seam.getUpdated k chunk).1, G e.id)
    (hW : ∀ a since, anchor = some a → loadJmapEmailState s.db acc a = some since →
      seam.collectChanges changesMaxPages 0 since [] [] = none → W (acc, a, .emailState) none) :
    Kept acc G W s ((syncEmailChanges fails seam acc anchor).outcome s).2 := by
  cases anchor with
  | none => exact Kept.refl s
  | some a =>
    unfold syncEmailChanges
    apply outcome_bind_of_returns Kept.trans (keeps_select _ s)
    intro since s₁ hsel
    obtain ⟨-, hsince, rfl⟩ := returns_select.mp hsel
    cases since with
    | none =>
      apply keeps_bind Kept.trans keeps_seedEmailState
      intro _
      exact keeps_pure Kept.refl _
    | some since =>
      apply outcome_bind_of_returns Kept.trans (keeps_changesPages _ _ _ _ _ _)
      intro changes s₂ hchanges
      have hcollect := changes_of_returns hchanges
      cases changes with
      | none =>
        apply keeps_bind Kept.trans (keeps_clearStateCursor (hW a since rfl hsince.symm hcollect.symm))
        intro _
        apply keeps_bind Kept.trans keeps_seedEmailState
        intro _
        exact keeps_pure Kept.refl _
      | some changes =>
        apply keeps_bind Kept.trans
        · exact keeps_modify fun _ => .of_db rfl fun _ h => .inl h
        · intro _
          apply keeps_refetchChunks
          intro k chunk hk e he
          rw [Nat.zero_add] at he
          exact hG since changes hsince.symm hcollect.symm k chunk hk e he

/-! ## Step 3 -/

theorem kept_queryPages {folder : FolderId} {mb : MailboxId} {fuel k : Nat}
    (hfull : ∀ j, j < k → queryPage ≤ (seam.page mb j).ids.length)
    (hids : ∀ k, (∀ j, j < k → queryPage ≤ (seam.page mb j).ids.length) →
      ∀ id ∈ (seam.page mb k).ids, G id)
    (hemails : ∀ k, (∀ j, j < k → queryPage ≤ (seam.page mb j).ids.length) →
      ∀ e ∈ (seam.page mb k).emails, G e.id)
    (hW : ∀ last q, LastPage seam mb last → (seam.page mb last).queryState = some q →
      W (acc, folder, .stateToken) (some ⟨acc, folder, .stateToken q⟩)) :
    Keeps (Kept acc G W) (queryPages fails seam acc folder mb fuel k) := by
  induction fuel generalizing k with
  | zero => exact keeps_throw Kept.refl _
  | succ fuel ih =>
    unfold queryPages
    apply keeps_bind Kept.trans keeps_awaitCall
    intro _
    apply keeps_bind Kept.trans
    · apply keeps_modify
      intro s
      apply Kept.of_db
      · rfl
      · intro id hid
        exact (List.mem_append.mp hid).elim (fun h => .inr (hids k hfull id h)) .inl
    · intro _
      change Keeps _ (if (seam.page mb k).ids.length < queryPage then _ else _)
      split
      case isTrue hshort =>
        exact keeps_persistAndDownload (hemails k hfull) fun q hq => hW k q ⟨hfull, hshort⟩ hq
      case isFalse hlong =>
        apply keeps_bind Kept.trans
        · exact keeps_persistAndDownload (hemails k hfull) fun q hq => by cases hq
        · intro _
          apply keeps_bind Kept.trans
          · apply ih
            intro j hj
            rcases Nat.lt_succ_iff_lt_or_eq.mp hj with hj | rfl
            · exact hfull j hj
            · exact Nat.le_of_not_lt hlong
          · intro _
            exact keeps_pure Kept.refl _

theorem keeps_addedChunks {folder : FolderId} {mb : MailboxId} {qs : Option Nat}
    (cs : List (List EmailId)) (k : Nat)
    (hG : ∀ k, ∀ chunk ∈ cs, ∀ e ∈ (seam.getAdded mb k chunk).1, G e.id)
    (hW : ∀ q, qs = some q → W (acc, folder, .stateToken) (some ⟨acc, folder, .stateToken q⟩)) :
    Keeps (Kept acc G W) (addedChunks fails seam acc folder mb qs k cs) := by
  induction cs generalizing k with
  | nil => exact keeps_pure Kept.refl _
  | cons chunk cs ih =>
    unfold addedChunks
    apply keeps_bind Kept.trans keeps_awaitCall
    intro _
    apply keeps_bind Kept.trans (keeps_noteEmailState _)
    intro _
    apply keeps_bind Kept.trans
    · apply keeps_persistAndDownload (hG k chunk List.mem_cons_self)
      intro q hq
      split at hq
      · exact hW q hq
      · cases hq
    · intro _
      apply keeps_bind Kept.trans
      · exact ih _ fun k chunk' h => hG k chunk' (List.mem_cons_of_mem _ h)
      · intro _
        exact keeps_pure Kept.refl _

end Kept

/-! ## One mailbox after the other -/

section Turns

variable (seam : Seam) (acc : AccountId) (db : Db)

/-- A query state that the run commits for a mailbox. -/
def NewState (mb : MailboxId) (q : Nat) : Prop :=
  (∃ changes, deltaOf seam acc db mb = some changes ∧ changes.newQueryState = some q) ∨
    (deltaOf seam acc db mb = none ∧
      ∃ last, LastPage seam mb last ∧ (seam.page mb last).queryState = some q)

/-- The cursors that a run writes before it deletes: a stale email state is cleared, and
each mailbox of `mbs` gets its new state, after a stale one was cleared. -/
def Written (mbs : List MailboxId) (k : AccountId × FolderId × CursorType)
    (v : Option CursorRow) : Prop :=
  (∃ anchor, anchorOf db acc = some anchor ∧ k = (acc, anchor, .emailState) ∧
      changesOf seam acc db = none ∧ v = none) ∨
    ∃ mb ∈ mbs, ∃ folder, findFolderId db acc mb = some folder ∧ k = (acc, folder, .stateToken) ∧
      ((∃ q, NewState seam acc db mb q ∧ v = some ⟨acc, folder, .stateToken q⟩) ∨
        (deltaOf seam acc db mb = none ∧ v = none))

end Turns

theorem Written.mono {seam : Seam} {acc : AccountId} {db : Db} {mbs mbs' : List MailboxId}
    (h : ∀ mb ∈ mbs, mb ∈ mbs') {k : AccountId × FolderId × CursorType} {v : Option CursorRow}
    (hw : Written seam acc db mbs k v) : Written seam acc db mbs' k v :=
  hw.imp id fun ⟨mb, hmb, rest⟩ => ⟨mb, h mb hmb, rest⟩

theorem Kept.mono {acc : AccountId} {G : EmailId → Prop}
    {W W' : AccountId × FolderId × CursorType → Option CursorRow → Prop} {s t : SyncRun}
    (h : Kept acc G W s t) (hW : ∀ k v, W k v → W' k v) : Kept acc G W' s t :=
  ⟨h.folders, h.grows, h.stored, h.refetched, fun k => (h.cursors k).imp id (hW k _)⟩

section Turn

variable {seam : Seam} {acc : AccountId} {db : Db} {s t : SyncRun} {G : EmailId → Prop}
  {done : List MailboxId} {mb : MailboxId}

/-- The turns of other mailboxes leave a mailbox's query state alone. -/
theorem cursorOf_turn (h : Kept acc G (Written seam acc db done) s t)
    (hfolders : ∀ mb, findFolderId s.db acc mb = findFolderId db acc mb) (hmb : mb ∉ done) :
    cursorOf t.db acc mb = cursorOf s.db acc mb := by
  unfold cursorOf
  rw [h.folders mb]
  cases hf : findFolderId s.db acc mb with
  | none => rfl
  | some folder =>
    have hcur : t.db.cursors.find (acc, folder, .stateToken) =
        s.db.cursors.find (acc, folder, .stateToken) := by
      rcases h.cursors (acc, folder, .stateToken) with e | ⟨_, _, e, _⟩ | ⟨mb', hmb', f, hf', e, _⟩
      · exact e
      · cases e
      · have hff : folder = f := congrArg (fun k => k.2.1) e
        subst hff
        rw [hfolders] at hf
        obtain rfl := findFolderId_inj hf hf'
        exact absurd hmb' hmb
    simp only [Option.bind_some, loadJmapCursor, hcur]

theorem deltaOf_turn (h : Kept acc G (Written seam acc s.db done) s t) (hmb : mb ∉ done) :
    deltaOf seam acc t.db mb = deltaOf seam acc s.db mb := by
  rw [deltaOf, deltaOf, cursorOf_turn h (fun _ => rfl) hmb]

end Turn

section Mailboxes

variable {h : History} {sch : Schedule} {seam : Seam} {acc : AccountId}

theorem mem_ids_of_emails {mb : MailboxId} (hans : PagesAnswer h sch seam mb) {k : Nat}
    (hfull : ∀ j, j < k → queryPage ≤ (seam.page mb j).ids.length) {e : JmapEmail}
    (he : e ∈ (seam.page mb k).emails) : e.id ∈ (seam.page mb k).ids := by
  have hk := wire_of_full hans hfull
  have hmem : e.id ∈ (seam.page mb k).emails.map JmapEmail.id := List.mem_map_of_mem he
  rw [((hans.emails k hk).map JmapEmail.id).mem_iff, JmapAccount.mem_ids_get] at hmem
  exact hmem.1

theorem mem_ids_of_getAdded (hans : SeamAnswers h sch seam) {mb : MailboxId} {k : Nat}
    {ids : List EmailId} {e : JmapEmail} (he : e ∈ (seam.getAdded mb k ids).1) : e.id ∈ ids := by
  have hmem : e.id ∈ (seam.getAdded mb k ids).1.map JmapEmail.id := List.mem_map_of_mem he
  rw [((hans.getAdded mb k ids).map JmapEmail.id).mem_iff, JmapAccount.mem_ids_get] at hmem
  exact hmem.1

/-- One mailbox's turn, however it ends. -/
theorem kept_syncMailbox (fails : Nat → Option SyncError) (hans : SeamAnswers h sch seam)
    {s₁ s : SyncRun} {done : List MailboxId}
    (hs : Kept acc (Refetched seam acc s₁.db) (Written seam acc s₁.db done) s₁ s)
    {mb : JmapMailbox} (hmb : mb ∈ seam.mailboxes) (hturn : mb.id ∉ done) (fuel : Nat) :
    Kept acc (Refetched seam acc s₁.db) (Written seam acc s₁.db [mb.id]) s
      ((syncMailbox fails seam acc fuel mb.id).outcome s).2 := by
  have hcursor := cursorOf_turn hs (fun _ => rfl) hturn
  unfold syncMailbox
  apply outcome_bind_of_returns Kept.trans (keeps_select _ s)
  intro found s₂ hsel
  obtain ⟨-, hfound, rfl⟩ := returns_select.mp hsel
  cases found with
  | none => exact keeps_throw Kept.refl _ _
  | some folder =>
    have hfolder : findFolderId s₁.db acc mb.id = some folder := by
      rw [← hs.folders mb.id]
      exact hfound.symm
    have hwrite : ∀ q, NewState seam acc s₁.db mb.id q →
        Written seam acc s₁.db [mb.id] (acc, folder, .stateToken)
          (some ⟨acc, folder, .stateToken q⟩) := fun q hq =>
      .inr ⟨mb.id, List.mem_singleton_self _, folder, hfolder, rfl, .inl ⟨q, hq, rfl⟩⟩
    -- a full query, with or without a stale cursor
    have hfullQuery : deltaOf seam acc s₁.db mb.id = none →
        Keeps (Kept acc (Refetched seam acc s₁.db) (Written seam acc s₁.db [mb.id]))
          (fullFolderQuery fails seam acc fuel folder mb.id) := by
      intro hnone
      have hids : ∀ k, (∀ j, j < k → queryPage ≤ (seam.page mb.id j).ids.length) →
          ∀ id ∈ (seam.page mb.id k).ids, Refetched seam acc s₁.db id := fun k hk id hid =>
        .inr ⟨mb, hmb, .inr ⟨hnone, k, hk, hid⟩⟩
      apply kept_queryPages
      · exact fun j hj => absurd hj (Nat.not_lt_zero j)
      · exact hids
      · intro k hk e he
        exact hids k hk e.id (mem_ids_of_emails (hans.pages mb.id) hk he)
      · intro last q hlast hq
        exact hwrite q (.inr ⟨hnone, last, hlast, hq⟩)
    apply outcome_bind_of_returns Kept.trans (keeps_select _ _)
    intro state s₃ hload
    obtain ⟨-, hstate, rfl⟩ := returns_select.mp hload
    have hcur : cursorOf s₁.db acc mb.id = state := by
      rw [← hcursor, cursorOf, ← hfound, hstate]
      rfl
    cases state with
    | none =>
      apply hfullQuery
      rw [deltaOf, hcur]
      rfl
    | some since =>
      apply keeps_bind Kept.trans keeps_awaitCall
      intro _
      cases hch : seam.queryEmailChanges mb.id since with
      | none =>
        have hnone : deltaOf seam acc s₁.db mb.id = none := by
          rw [deltaOf, hcur, Option.bind_some, hch]
        apply keeps_bind Kept.trans
        · apply keeps_clearStateCursor
          exact .inr ⟨mb.id, List.mem_singleton_self _, folder, hfolder, rfl, .inr ⟨hnone, rfl⟩⟩
        · intro _
          exact hfullQuery hnone
      | some changes =>
        have hsome : deltaOf seam acc s₁.db mb.id = some changes := by
          rw [deltaOf, hcur, Option.bind_some, hch]
        have hadded : ∀ id ∈ changes.addedIds, Refetched seam acc s₁.db id := fun id hid =>
          .inr ⟨mb, hmb, .inl ⟨changes, hsome, hid⟩⟩
        have hnew : ∀ q, changes.newQueryState = some q →
            Written seam acc s₁.db [mb.id] (acc, folder, .stateToken)
              (some ⟨acc, folder, .stateToken q⟩) := fun q hq =>
          hwrite q (.inl ⟨changes, hsome, hq⟩)
        apply keeps_bind Kept.trans
        · apply keeps_modify
          intro s
          apply Kept.of_db
          · rfl
          · intro id hid
            exact (List.mem_append.mp hid).elim (fun h => .inr (hadded id h)) .inl
        · intro _
          unfold persistAdded
          split
          · exact keeps_persistAndDownload (fun e he => by cases he) hnew
          · apply keeps_addedChunks _ _ _ hnew
            intro k chunk hchunk e he
            apply hadded
            exact mem_of_mem_chunks queryPage (by decide) _ hchunk (mem_ids_of_getAdded hans he)

/-- From one mailbox's turn to the next. -/
theorem nextTurn {s₁ s t : SyncRun} {G : EmailId → Prop} {done : List MailboxId}
    {mb : JmapMailbox} {rest : List JmapMailbox}
    (hs : Kept acc G (Written seam acc s₁.db done) s₁ s)
    (hturn : Kept acc G (Written seam acc s₁.db [mb.id]) s t)
    (hrest : ∀ m ∈ mb :: rest, m ∈ seam.mailboxes)
    (hnodup : ((mb :: rest).map JmapMailbox.id).Nodup) (hdisj : ∀ m ∈ mb :: rest, m.id ∉ done) :
    Kept acc G (Written seam acc s₁.db (mb.id :: done)) s₁ t ∧ (∀ m ∈ rest, m ∈ seam.mailboxes) ∧
      (rest.map JmapMailbox.id).Nodup ∧ ∀ m ∈ rest, m.id ∉ mb.id :: done := by
  obtain ⟨hnot, hnodup'⟩ := List.nodup_cons.mp hnodup
  refine ⟨?_, fun m hm => hrest m (List.mem_cons_of_mem _ hm), hnodup', ?_⟩
  · apply Kept.trans _ s _
    · exact hs.mono fun _ _ => Written.mono fun m hm => List.mem_cons_of_mem _ hm
    · exact hturn.mono fun _ _ => Written.mono fun m hm =>
        List.mem_cons.mpr (.inl (List.mem_singleton.mp hm))
  · intro m hm hin
    rcases List.mem_cons.mp hin with e | hin
    · exact hnot (e ▸ List.mem_map_of_mem hm)
    · exact hdisj m (List.mem_cons_of_mem _ hm) hin

/-- The turns of the remaining mailboxes, however they end. -/
theorem kept_syncMailboxes (fails : Nat → Option SyncError) (hans : SeamAnswers h sch seam)
    {s₁ : SyncRun}
    (rest : List JmapMailbox) (hrest : ∀ mb ∈ rest, mb ∈ seam.mailboxes)
    (hnodup : (rest.map JmapMailbox.id).Nodup) (fuel : Nat) {s : SyncRun}
    {done : List MailboxId}
    (hs : Kept acc (Refetched seam acc s₁.db) (Written seam acc s₁.db done) s₁ s)
    (hdisj : ∀ mb ∈ rest, mb.id ∉ done) :
    Kept acc (Refetched seam acc s₁.db) (Written seam acc s₁.db (rest.map JmapMailbox.id)) s
      ((syncMailboxes fails seam acc fuel rest).outcome s).2 := by
  induction rest generalizing s done with
  | nil => exact Kept.refl s
  | cons mb rest ih =>
    have hturn := kept_syncMailbox fails hans hs (hrest mb List.mem_cons_self)
      (hdisj mb List.mem_cons_self) fuel
    unfold syncMailboxes
    apply outcome_bind_of_returns Kept.trans
    · exact hturn.mono fun _ _ => Written.mono fun m hm =>
        List.mem_cons.mpr (.inl (List.mem_singleton.mp hm))
    · intro r t hret
      rw [hret] at hturn
      obtain ⟨hst, hrest', hnodup', hdisj'⟩ := nextTurn hs hturn hrest hnodup hdisj
      apply outcome_bind_of_returns Kept.trans
      · exact (ih hrest' hnodup' hst hdisj').mono fun _ _ => Written.mono fun m hm =>
          List.mem_cons_of_mem _ hm
      · intro _ u _
        exact Kept.refl u

end Mailboxes

/-! ## What has been gathered -/

/-- Only the database and the count of calls differ. -/
structure SameLists (s t : SyncRun) : Prop where
  refetched : t.refetched = s.refetched
  removed : t.removed = s.removed
  noted : t.newEmailState = s.newEmailState

theorem SameLists.refl (s : SyncRun) : SameLists s s := ⟨rfl, rfl, rfl⟩

theorem SameLists.trans (s t u : SyncRun) (h : SameLists s t) (h' : SameLists t u) :
    SameLists s u :=
  ⟨h'.refetched.trans h.refetched, h'.removed.trans h.removed, h'.noted.trans h.noted⟩

section Lists

variable {fails : Nat → Option SyncError} {seam : Seam} {acc : AccountId}

theorem sameLists_awaitCall : Keeps SameLists (awaitCall fails) := by
  intro s
  rw [outcome_awaitCall]
  exact ⟨rfl, rfl, rfl⟩

theorem sameLists_select {α : Type} (f : Db → α) : Keeps SameLists (select fails f) := by
  apply keeps_bind SameLists.trans sameLists_awaitCall
  intro _
  apply keeps_bind SameLists.trans (keeps_get SameLists.refl)
  intro _
  exact keeps_pure SameLists.refl _

theorem sameLists_persistAndDownload {folder : FolderId} {emails : List JmapEmail}
    {qs : Option Nat} : Keeps SameLists (persistAndDownload fails acc folder emails qs) := by
  apply keeps_bind SameLists.trans (sameLists_select _)
  intro _
  apply keeps_bind SameLists.trans
  · exact keeps_modify fun _ => ⟨rfl, rfl, rfl⟩
  · intro _
    apply keeps_bind SameLists.trans
    · unfold downloadAttachments
      split
      · exact keeps_pure SameLists.refl _
      · exact sameLists_awaitCall
    · intro _
      exact keeps_pure SameLists.refl _

theorem sameLists_resolveJmapEmailFolder (mbs : List MailboxId) :
    Keeps SameLists (resolveJmapEmailFolder fails acc mbs) := by
  induction mbs with
  | nil => exact keeps_pure SameLists.refl _
  | cons mb mbs ih =>
    unfold resolveJmapEmailFolder
    apply keeps_bind SameLists.trans (sameLists_select _)
    intro found
    cases found with
    | none => exact ih
    | some folder => exact keeps_pure SameLists.refl _

theorem sameLists_persistGroups (groups : List (FolderId × List JmapEmail)) :
    Keeps SameLists (persistGroups fails acc groups) := by
  induction groups with
  | nil => exact keeps_pure SameLists.refl _
  | cons g groups ih =>
    unfold persistGroups
    apply keeps_bind SameLists.trans sameLists_persistAndDownload
    intro _
    apply keeps_bind SameLists.trans ih
    intro _
    exact keeps_pure SameLists.refl _

theorem sameLists_changesPages (pages k since : Nat) (updated destroyed : List EmailId) :
    Keeps SameLists (changesPages fails seam pages k since updated destroyed) := by
  induction pages generalizing k since updated destroyed with
  | zero => exact keeps_pure SameLists.refl _
  | succ pages ih =>
    unfold changesPages
    apply keeps_bind SameLists.trans sameLists_awaitCall
    intro _
    split
    · exact keeps_pure SameLists.refl _
    · split
      · exact ih _ _ _ _
      · exact keeps_pure SameLists.refl _

/-- Ids are added to `refetched`, and nothing else is noted. -/
structure Gathers (P : EmailId → Prop) (s t : SyncRun) : Prop where
  refetched : ∀ id, id ∈ t.refetched ↔ id ∈ s.refetched ∨ P id
  removed : t.removed = s.removed
  noted : ∀ x, s.newEmailState = some x → t.newEmailState = some x

theorem SameLists.gathers {s t : SyncRun} (h : SameLists s t) {P : EmailId → Prop}
    (hP : ∀ id, ¬ P id) : Gathers P s t where
  refetched := fun id => by rw [h.refetched]; exact ⟨.inl, fun h => h.resolve_right (hP id)⟩
  removed := h.removed
  noted := fun x hx => by rw [h.noted, hx]

theorem Gathers.trans {P Q : EmailId → Prop} {s t u : SyncRun} (h : Gathers P s t)
    (h' : Gathers Q t u) : Gathers (fun id => P id ∨ Q id) s u where
  refetched := fun id => by rw [h'.refetched, h.refetched, or_assoc]
  removed := h'.removed.trans h.removed
  noted := fun x hx => h'.noted x (h.noted x hx)

theorem Gathers.congr {P Q : EmailId → Prop} {s t : SyncRun} (h : Gathers P s t)
    (hPQ : ∀ id, P id ↔ Q id) : Gathers Q s t :=
  ⟨fun id => (h.refetched id).trans (or_congr Iff.rfl (hPQ id)), h.removed, h.noted⟩

theorem gathers_groupByFolder {emails : List JmapEmail}
    {groups out : List (FolderId × List JmapEmail)} {s t : SyncRun}
    (h : Returns (groupByFolder fails acc emails groups) s out t) :
    Gathers (fun id => id ∈ emails.map JmapEmail.id) s t := by
  induction emails generalizing groups s with
  | nil =>
    obtain ⟨-, rfl⟩ := returns_pure.mp h
    exact (SameLists.refl _).gathers fun id hid => by cases hid
  | cons email emails ih =>
    unfold groupByFolder at h
    obtain ⟨_, s₁, hmod, h⟩ := returns_bind.mp h
    obtain rfl := returns_modify.mp hmod
    obtain ⟨found, s₂, hres, h⟩ := returns_bind.mp h
    have hsame := (sameLists_resolveJmapEmailFolder _).returns hres
    have hhead : Gathers (fun id => id = email.id) s s₂ := by
      refine ⟨?_, hsame.removed, fun x hx => hsame.noted.trans hx⟩
      intro id
      rw [hsame.refetched]
      exact List.mem_cons.trans or_comm
    have hrest : Gathers (fun id => id ∈ emails.map JmapEmail.id) s₂ t := by
      cases found with
      | none => exact ih h
      | some folder => exact ih h
    exact (hhead.trans hrest).congr fun id => List.mem_cons.symm

theorem gathers_refetchChunks {cs : List (List EmailId)} {k : Nat} {s t : SyncRun} {r : Nat × Nat}
    (h : Returns (refetchChunks fails seam acc k cs) s r t) :
    Gathers (fun id => ∃ i chunk, cs[i]? = some chunk ∧
      id ∈ (seam.getUpdated (k + i) chunk).1.map JmapEmail.id) s t := by
  induction cs generalizing k s r with
  | nil =>
    obtain ⟨-, rfl⟩ := returns_pure.mp h
    apply (SameLists.refl _).gathers
    rintro id ⟨i, chunk, hi, -⟩
    cases hi
  | cons chunk cs ih =>
    unfold refetchChunks at h
    obtain ⟨_, s₁, hawait, h⟩ := returns_bind.mp h
    obtain ⟨-, rfl⟩ := returns_awaitCall.mp hawait
    obtain ⟨groups, s₂, hgroup, h⟩ := returns_bind.mp h
    obtain ⟨_, s₃, hpersist, h⟩ := returns_bind.mp h
    obtain ⟨_, s₄, hrest, h⟩ := returns_bind.mp h
    obtain ⟨-, rfl⟩ := returns_pure.mp h
    have hhead := (gathers_groupByFolder hgroup).trans
      (((sameLists_persistGroups groups).returns hpersist).gathers (P := fun _ => False) fun _ => id)
    have hall := hhead.trans (ih hrest)
    refine ⟨fun id => (hall.refetched id).trans (or_congr Iff.rfl ?_), hall.removed, hall.noted⟩
    constructor
    · rintro ((hid | hid) | ⟨i, chunk', hi, hid⟩)
      · exact ⟨0, chunk, rfl, hid⟩
      · exact hid.elim
      · exact ⟨i + 1, chunk', hi, by rw [show k + (i + 1) = k + 1 + i by omega]; exact hid⟩
    · rintro ⟨i, chunk', hi, hid⟩
      cases i with
      | zero =>
        cases hi
        exact .inl (.inl hid)
      | succ i =>
        refine .inr ⟨i, chunk', hi, ?_⟩
        rw [show k + 1 + i = k + (i + 1) by omega]
        exact hid

theorem gathers_addedChunks {folder : FolderId} {mb : MailboxId} {qs : Option Nat}
    {cs : List (List EmailId)} {k : Nat} {s t : SyncRun} {r : Nat × Nat}
    (h : Returns (addedChunks fails seam acc folder mb qs k cs) s r t) :
    Gathers (fun _ => False) s t ∧
      (cs ≠ [] → loadJmapCursor t.db acc folder = qs.or (loadJmapCursor s.db acc folder)) := by
  induction cs generalizing k s r with
  | nil =>
    obtain ⟨-, rfl⟩ := returns_pure.mp h
    exact ⟨(SameLists.refl _).gathers fun _ => id, fun hne => absurd rfl hne⟩
  | cons chunk cs ih =>
    unfold addedChunks at h
    obtain ⟨_, s₁, hawait, h⟩ := returns_bind.mp h
    obtain ⟨-, rfl⟩ := returns_awaitCall.mp hawait
    obtain ⟨_, s₂, hmod, h⟩ := returns_bind.mp h
    obtain rfl := returns_modify.mp hmod
    obtain ⟨_, s₃, hpersist, h⟩ := returns_bind.mp h
    obtain ⟨n, rfl⟩ := returns_persistAndDownload hpersist
    obtain ⟨_, s₄, hrest, h⟩ := returns_bind.mp h
    obtain ⟨-, rfl⟩ := returns_pure.mp h
    obtain ⟨hgather, hcursor⟩ := ih hrest
    constructor
    · refine ⟨?_, hgather.removed, ?_⟩
      · exact fun id => hgather.refetched id
      · intro x hx
        apply hgather.noted
        simp only [SyncRun.noteEmailState, hx, Option.some_or]
    · intro _
      have hone := loadJmapCursor_persistJmapFolderBatch s.db acc folder (seam.getAdded mb k chunk).1
        (if cs.isEmpty then qs else none)
      cases cs with
      | nil =>
        -- the last chunk commits the state
        obtain ⟨-, rfl⟩ := returns_pure.mp hrest
        exact hone
      | cons c cs =>
        rw [hcursor (List.cons_ne_nil c cs)]
        exact congrArg (qs.or ·) hone

theorem gathers_persistAdded {folder : FolderId} {mb : MailboxId} {changes : EmailQueryChanges}
    {s t : SyncRun} {r : Nat × Nat}
    (h : Returns (persistAdded fails seam acc folder mb changes) s r t) :
    Gathers (fun _ => False) s t ∧ loadJmapCursor t.db acc folder =
      changes.newQueryState.or (loadJmapCursor s.db acc folder) := by
  unfold persistAdded at h
  split at h
  case isTrue =>
    refine ⟨(sameLists_persistAndDownload.returns h).gathers fun _ => id, ?_⟩
    obtain ⟨n, rfl⟩ := returns_persistAndDownload h
    exact loadJmapCursor_persistJmapFolderBatch s.db acc folder [] changes.newQueryState
  case isFalse hne =>
    obtain ⟨hgather, hcursor⟩ := gathers_addedChunks h
    refine ⟨hgather, hcursor ?_⟩
    rw [chunks_eq_cons queryPage (by decide) _ (by simpa using hne)]
    exact List.cons_ne_nil _ _

/-- One mailbox's turn that returns. -/
structure MailboxDone (seam : Seam) (acc : AccountId) (mb : MailboxId) (s t : SyncRun) : Prop where
  removed : ∀ id, id ∈ t.removed ↔ id ∈ s.removed ∨ RemovedFrom seam acc s.db mb id
  refetched : ∀ id, id ∈ t.refetched ↔ id ∈ s.refetched ∨
    AddedTo seam acc s.db mb id ∨ ListedIn seam acc s.db mb id
  noted : ∀ x, s.newEmailState = some x → t.newEmailState = some x
  cursor : ∃ folder, findFolderId s.db acc mb = some folder ∧
    ((∃ changes, deltaOf seam acc s.db mb = some changes ∧ loadJmapCursor t.db acc folder =
        changes.newQueryState.or (loadJmapCursor s.db acc folder)) ∨
      (deltaOf seam acc s.db mb = none ∧ ∃ last old, LastPage seam mb last ∧
        loadJmapCursor t.db acc folder = (seam.page mb last).queryState.or old))

theorem mailboxDone_fullFolderQuery {fuel : Nat} {folder : FolderId} {mb : MailboxId}
    {s₀ s t : SyncRun} {r : Nat × Nat}
    (h : Returns (fullFolderQuery fails seam acc fuel folder mb) s r t)
    (hfolder : findFolderId s₀.db acc mb = some folder) (hnone : deltaOf seam acc s₀.db mb = none)
    (hsame : SameLists s₀ s) : MailboxDone seam acc mb s₀ t := by
  obtain ⟨last, hdone⟩ := pagesDone_of_returns h
  have hlast : LastPage seam mb last :=
    ⟨fun j hj => hdone.full j (Nat.zero_le _) hj, hdone.short⟩
  refine ⟨?_, ?_, ?_, folder, hfolder, .inr ⟨hnone, last, _, hlast, hdone.cursor⟩⟩
  · intro id
    rw [hdone.removed, hsame.removed]
    refine ⟨.inl, fun hid => hid.resolve_right ?_⟩
    rintro ⟨changes, hch, -⟩
    rw [hnone] at hch
    cases hch
  · intro id
    rw [hdone.refetched, hsame.refetched]
    refine or_congr Iff.rfl ⟨?_, ?_⟩
    · rintro ⟨k, -, hk, hid⟩
      exact .inr ⟨hnone, k, fun j hj => hlast.1 j (by omega), hid⟩
    · rintro (⟨changes, hch, -⟩ | ⟨-, k, hfull, hid⟩)
      · rw [hnone] at hch
        cases hch
      · refine ⟨k, Nat.zero_le _, ?_, hid⟩
        by_contra hk
        have := hfull last (by omega)
        have := hlast.2
        omega
  · intro x hx
    exact hdone.noted x (hsame.noted.trans hx)

theorem mailboxDone_of_returns {fuel : Nat} {mb : MailboxId} {s t : SyncRun} {r : Nat × Nat}
    (h : Returns (syncMailbox fails seam acc fuel mb) s r t) : MailboxDone seam acc mb s t := by
  unfold syncMailbox at h
  obtain ⟨found, s₁, hsel, h⟩ := returns_bind.mp h
  obtain ⟨-, hfound, rfl⟩ := returns_select.mp hsel
  cases found with
  | none => cases h
  | some folder =>
    obtain ⟨state, s₂, hload, h⟩ := returns_bind.mp h
    obtain ⟨-, hstate, rfl⟩ := returns_select.mp hload
    have hcur : cursorOf s.db acc mb = state := by
      rw [cursorOf, ← hfound, hstate]
      rfl
    cases state with
    | none =>
      apply mailboxDone_fullFolderQuery h hfound.symm
      · rw [deltaOf, hcur]
        rfl
      · exact ⟨rfl, rfl, rfl⟩
    | some since =>
      obtain ⟨_, s₃, hawait, h⟩ := returns_bind.mp h
      obtain ⟨-, rfl⟩ := returns_awaitCall.mp hawait
      cases hch : seam.queryEmailChanges mb since with
      | none =>
        rw [hch] at h
        obtain ⟨_, s₄, hclear, h⟩ := returns_bind.mp h
        obtain ⟨-, rfl⟩ := returns_execute.mp hclear
        apply mailboxDone_fullFolderQuery h hfound.symm
        · rw [deltaOf, hcur, Option.bind_some, hch]
        · exact ⟨rfl, rfl, rfl⟩
      | some changes =>
        rw [hch] at h
        have hsome : deltaOf seam acc s.db mb = some changes := by
          rw [deltaOf, hcur, Option.bind_some, hch]
        obtain ⟨_, s₄, hmod, h⟩ := returns_bind.mp h
        obtain rfl := returns_modify.mp hmod
        obtain ⟨hgather, hcursor⟩ := gathers_persistAdded h
        refine ⟨?_, ?_, hgather.noted, folder, hfound.symm, .inl ⟨changes, hsome, hcursor⟩⟩
        · intro id
          rw [hgather.removed]
          refine List.mem_append.trans (or_congr Iff.rfl ?_)
          constructor
          · exact fun hid => ⟨changes, hsome, hid⟩
          · rintro ⟨ch, hch', hid⟩
            rw [hsome] at hch'
            cases hch'
            exact hid
        · intro id
          rw [hgather.refetched, or_false]
          refine (List.mem_append.trans or_comm).trans (or_congr Iff.rfl ?_)
          constructor
          · exact fun hid => .inl ⟨changes, hsome, hid⟩
          · rintro (⟨ch, hch', hid⟩ | ⟨hnone, -⟩)
            · rw [hsome] at hch'
              cases hch'
              exact hid
            · rw [hsome] at hnone
              cases hnone

/-- The turns of the remaining mailboxes, when they all return. -/
structure TurnsDone (seam : Seam) (acc : AccountId) (db : Db) (rest : List JmapMailbox)
    (s t : SyncRun) : Prop where
  removed : ∀ id, id ∈ t.removed ↔ id ∈ s.removed ∨
    ∃ mb ∈ rest, RemovedFrom seam acc db mb.id id
  refetched : ∀ id, id ∈ t.refetched ↔ id ∈ s.refetched ∨
    ∃ mb ∈ rest, AddedTo seam acc db mb.id id ∨ ListedIn seam acc db mb.id id
  noted : ∀ x, s.newEmailState = some x → t.newEmailState = some x
  cursors : ∀ mb ∈ rest, ∃ q, NewState seam acc db mb.id q ∧ cursorOf t.db acc mb.id = some q

variable {h : History} {sch : Schedule}

/-- The state that a mailbox's turn commits. -/
theorem MailboxDone.newState (hans : SeamAnswers h sch seam) {mb : MailboxId} {s t : SyncRun}
    (hdone : MailboxDone seam acc mb s t)
    (hfolders : ∀ mb, findFolderId t.db acc mb = findFolderId s.db acc mb) :
    ∃ q, NewState seam acc s.db mb q ∧ cursorOf t.db acc mb = some q := by
  obtain ⟨folder, hfolder, hcursor⟩ := hdone.cursor
  have hcur : cursorOf t.db acc mb = loadJmapCursor t.db acc folder := by
    rw [cursorOf, hfolders, hfolder]
    rfl
  rw [hcur]
  rcases hcursor with ⟨changes, hch, hload⟩ | ⟨hnone, last, old, hlast, hload⟩
  · obtain ⟨since, -, hdelta⟩ := Option.bind_eq_some_iff.mp hch
    have hq := (hans.delta mb since changes hdelta).newQueryState
    rw [hload, hq]
    exact ⟨_, .inl ⟨changes, hch, hq⟩, rfl⟩
  · have hq := (hans.pages mb).queryState last (wire_of_full (hans.pages mb) hlast.1)
    rw [hload, hq]
    exact ⟨_, .inr ⟨hnone, last, hlast, hq⟩, rfl⟩

theorem turnsDone_of_returns (hans : SeamAnswers h sch seam) {s₁ : SyncRun}
    (rest : List JmapMailbox) (hrest : ∀ mb ∈ rest, mb ∈ seam.mailboxes)
    (hnodup : (rest.map JmapMailbox.id).Nodup) {fuel : Nat} {s t : SyncRun} {r : Nat × Nat}
    {done : List MailboxId}
    (hs : Kept acc (Refetched seam acc s₁.db) (Written seam acc s₁.db done) s₁ s)
    (hdisj : ∀ mb ∈ rest, mb.id ∉ done)
    (hret : Returns (syncMailboxes fails seam acc fuel rest) s r t) :
    TurnsDone seam acc s₁.db rest s t := by
  induction rest generalizing s done r with
  | nil =>
    obtain ⟨-, rfl⟩ := returns_pure.mp hret
    refine ⟨fun id => ⟨.inl, ?_⟩, fun id => ⟨.inl, ?_⟩, fun _ hx => hx, fun mb hmb => by cases hmb⟩
    · rintro (hid | ⟨_, hmb, _⟩)
      · exact hid
      · cases hmb
    · rintro (hid | ⟨_, hmb, _⟩)
      · exact hid
      · cases hmb
  | cons mb rest ih =>
    have hnew := hdisj mb List.mem_cons_self
    unfold syncMailboxes at hret
    obtain ⟨r₁, s₂, hturn, hret⟩ := returns_bind.mp hret
    obtain ⟨r₂, s₃, htail, hret⟩ := returns_bind.mp hret
    obtain ⟨-, rfl⟩ := returns_pure.mp hret
    have hkept := kept_syncMailbox fails hans hs (hrest mb List.mem_cons_self) hnew fuel
    rw [hturn] at hkept
    obtain ⟨hst, hrest', hnodup', hdisj'⟩ := nextTurn hs hkept hrest hnodup hdisj
    have hone := mailboxDone_of_returns hturn
    have htails := ih hrest' hnodup' hst hdisj' htail
    -- the head found its inputs as they were at the start
    have hdelta := deltaOf_turn hs hnew
    refine ⟨?_, ?_, fun x hx => htails.noted x (hone.noted x hx), ?_⟩
    · intro id
      rw [htails.removed, hone.removed, or_assoc]
      refine or_congr Iff.rfl ?_
      simp only [List.mem_cons, exists_eq_or_imp, RemovedFrom, hdelta]
    · intro id
      rw [htails.refetched, hone.refetched, or_assoc]
      refine or_congr Iff.rfl ?_
      simp only [List.mem_cons, exists_eq_or_imp, AddedTo, ListedIn, hdelta]
    · intro m hm
      rcases List.mem_cons.mp hm with rfl | hm
      · obtain ⟨q, hq, hcur⟩ := hone.newState hans hkept.folders
        refine ⟨q, by simpa only [NewState, hdelta] using hq, ?_⟩
        -- the later turns leave its cursor alone
        have hlater := kept_syncMailboxes fails hans rest hrest' hnodup' fuel hst hdisj'
        rw [htail] at hlater
        rw [cursorOf_turn hlater hst.folders (List.nodup_cons.mp hnodup).1, hcur]
      · exact htails.cursors m hm

/-! ## The three steps together -/

theorem prepared_of_upserts {mbs : List JmapMailbox} {s t : SyncRun} {u : Unit}
    (hret : Returns (forEach (upsertMailbox fails acc) mbs) s u t) :
    SameLists s t ∧ t.db = mbs.foldl (fun db mb =>
      upsertJmapFolder db acc mb.id mb.name mb.folderRole) s.db := by
  induction mbs generalizing s with
  | nil =>
    obtain rfl := returns_forEach_nil.mp hret
    exact ⟨SameLists.refl _, rfl⟩
  | cons mb mbs ih =>
    obtain ⟨s₁, hone, hrest⟩ := returns_forEach_cons.mp hret
    obtain ⟨-, rfl⟩ := returns_execute.mp hone
    obtain ⟨hsame, hdb⟩ := ih hrest
    exact ⟨⟨hsame.refetched, hsame.removed, hsame.noted⟩, hdb⟩

/-- The link of one mailbox to its parent. -/
def linkedTo (acc : AccountId) (db : Db) (mb : JmapMailbox) : Db :=
  match mb.parentId with
  | none => db
  | some parent => (linkJmapFolderParent db acc mb.id parent).getD db

theorem linked_of_returns {mb : JmapMailbox} {s t : SyncRun} {u : Unit}
    (hret : Returns (linkParent fails acc mb) s u t) :
    SameLists s t ∧ t.db = linkedTo acc s.db mb := by
  unfold linkParent at hret
  unfold linkedTo
  cases hp : mb.parentId with
  | none =>
    rw [hp] at hret
    obtain ⟨-, rfl⟩ := returns_pure.mp hret
    exact ⟨SameLists.refl _, rfl⟩
  | some parent =>
    rw [hp] at hret
    obtain ⟨linked, s₁, hsel, hret⟩ := returns_bind.mp hret
    obtain ⟨-, hlinked, rfl⟩ := returns_select.mp hsel
    cases linked with
    | none => cases hret
    | some db =>
      obtain rfl := returns_modify.mp hret
      refine ⟨⟨rfl, rfl, rfl⟩, ?_⟩
      dsimp only at hlinked ⊢
      rw [← hlinked]
      rfl

theorem prepared_of_links {mbs : List JmapMailbox} {s t : SyncRun} {u : Unit}
    (hret : Returns (forEach (linkParent fails acc) mbs) s u t) :
    SameLists s t ∧ t.db = mbs.foldl (linkedTo acc) s.db := by
  induction mbs generalizing s with
  | nil =>
    obtain rfl := returns_forEach_nil.mp hret
    exact ⟨SameLists.refl _, rfl⟩
  | cons mb mbs ih =>
    obtain ⟨s₁, hone, hrest⟩ := returns_forEach_cons.mp hret
    obtain ⟨hsame, hdb⟩ := linked_of_returns hone
    obtain ⟨hsame', hdb'⟩ := ih hrest
    exact ⟨SameLists.trans _ _ _ hsame hsame', by rw [hdb', hdb, List.foldl_cons]⟩

theorem linkedTo_frame (db : Db) (mb : JmapMailbox) :
    (linkedTo acc db mb).messages = db.messages ∧ (linkedTo acc db mb).cursors = db.cursors := by
  unfold linkedTo
  cases mb.parentId with
  | none => exact ⟨rfl, rfl⟩
  | some parent =>
    unfold linkJmapFolderParent
    dsimp only
    cases findFolderId db acc mb.id with
    | none => exact ⟨rfl, rfl⟩
    | some child =>
      cases findFolderId db acc parent with
      | none => exact ⟨rfl, rfl⟩
      | some p => exact ⟨rfl, rfl⟩

/-- Step 1 writes folders only. -/
theorem prepareFolders_frame (db : Db) (mbs : List JmapMailbox) :
    (prepareFolders db acc mbs).messages = db.messages ∧
      (prepareFolders db acc mbs).cursors = db.cursors := by
  have hlinks : ∀ (l : List JmapMailbox) (db : Db),
      (l.foldl (linkedTo acc) db).messages = db.messages ∧
        (l.foldl (linkedTo acc) db).cursors = db.cursors := by
    intro l
    induction l with
    | nil => exact fun db => ⟨rfl, rfl⟩
    | cons mb l ih =>
      intro db
      obtain ⟨hm, hc⟩ := ih (linkedTo acc db mb)
      obtain ⟨hm', hc'⟩ := linkedTo_frame db mb
      exact ⟨hm.trans hm', hc.trans hc'⟩
  have hupserts : ∀ (l : List JmapMailbox) (db : Db),
      (l.foldl (fun db mb => upsertJmapFolder db acc mb.id mb.name mb.folderRole) db).messages =
          db.messages ∧
        (l.foldl (fun db mb => upsertJmapFolder db acc mb.id mb.name mb.folderRole) db).cursors =
          db.cursors := by
    intro l
    induction l with
    | nil => exact fun db => ⟨rfl, rfl⟩
    | cons mb l ih => exact fun db => ih _
  obtain ⟨hm, hc⟩ := hlinks mbs (mbs.foldl (fun db mb =>
    upsertJmapFolder db acc mb.id mb.name mb.folderRole) db)
  obtain ⟨hm', hc'⟩ := hupserts mbs db
  exact ⟨hm.trans hm', hc.trans hc'⟩

theorem anchor_of_returns {s t : SyncRun} {anchor : Option FolderId}
    (hret : Returns (emailStateAnchor fails acc) s anchor t) :
    anchor = anchorOf s.db acc ∧ ∃ n, t = { s with calls := n } := by
  unfold emailStateAnchor at hret
  obtain ⟨found, s₁, hsel, hret⟩ := returns_bind.mp hret
  obtain ⟨-, hfound, rfl⟩ := returns_select.mp hsel
  unfold anchorOf
  rw [← hfound]
  cases found with
  | some folder =>
    obtain ⟨rfl, rfl⟩ := returns_pure.mp hret
    exact ⟨rfl, _, rfl⟩
  | none =>
    obtain ⟨-, rfl, rfl⟩ := returns_select.mp hret
    exact ⟨rfl, _, rfl⟩

/-- Step 2 when it returns. -/
structure ChangesDone (seam : Seam) (acc : AccountId) (s t : SyncRun) : Prop where
  removed : ∀ id, id ∈ t.removed ↔ id ∈ s.removed ∨ ReportedDestroyed seam acc s.db id
  refetched : ∀ id, id ∈ t.refetched ↔ id ∈ s.refetched ∨ FetchedAgain seam acc s.db id
  noted : ∀ changes, changesOf seam acc s.db = some changes → ∀ x, changes.newState = some x →
    t.newEmailState = some x

theorem changesDone_of_none {s t : SyncRun} (hnone : changesOf seam acc s.db = none)
    (hre : t.refetched = s.refetched) (hrm : t.removed = s.removed) : ChangesDone seam acc s t := by
  refine ⟨?_, ?_, ?_⟩
  · intro id
    rw [hrm]
    refine ⟨.inl, fun hid => hid.resolve_right ?_⟩
    rintro ⟨ch, hch, -⟩
    rw [hnone] at hch
    cases hch
  · intro id
    rw [hre]
    refine ⟨.inl, fun hid => hid.resolve_right ?_⟩
    rintro ⟨ch, hch, -⟩
    rw [hnone] at hch
    cases hch
  · intro ch hch
    rw [hnone] at hch
    cases hch

theorem lists_seedEmailState {s t : SyncRun} {u : Unit}
    (hret : Returns (seedEmailState fails seam) s u t) :
    t.refetched = s.refetched ∧ t.removed = s.removed := by
  unfold seedEmailState at hret
  split at hret
  · obtain ⟨-, rfl⟩ := returns_pure.mp hret
    exact ⟨rfl, rfl⟩
  · obtain ⟨_, s₁, hawait, hret⟩ := returns_bind.mp hret
    obtain ⟨-, rfl⟩ := returns_awaitCall.mp hawait
    obtain rfl := returns_modify.mp hret
    exact ⟨rfl, rfl⟩

theorem changesDone_of_returns {s t : SyncRun} {r : Nat × Nat}
    (hret : Returns (syncEmailChanges fails seam acc (anchorOf s.db acc)) s r t) :
    ChangesDone seam acc s t := by
  cases hanchor : anchorOf s.db acc with
  | none =>
    rw [hanchor] at hret
    obtain ⟨-, rfl⟩ := returns_pure.mp hret
    apply changesDone_of_none _ rfl rfl
    rw [changesOf, emailStateOf, hanchor]
    rfl
  | some anchor =>
    rw [hanchor] at hret
    unfold syncEmailChanges at hret
    obtain ⟨state, s₁, hsel, hret⟩ := returns_bind.mp hret
    obtain ⟨-, hstate, rfl⟩ := returns_select.mp hsel
    have hemail : emailStateOf s.db acc = state := by
      rw [emailStateOf, hanchor, hstate]
      rfl
    cases state with
    | none =>
      obtain ⟨_, s₂, hseed, hret⟩ := returns_bind.mp hret
      obtain ⟨-, rfl⟩ := returns_pure.mp hret
      obtain ⟨hre, hrm⟩ := lists_seedEmailState hseed
      refine changesDone_of_none (s := s) ?_ hre hrm
      rw [changesOf, hemail]
      rfl
    | some since =>
      obtain ⟨changes, s₂, hpages, hret⟩ := returns_bind.mp hret
      have hcollect := changes_of_returns hpages
      have hsame := (sameLists_changesPages _ _ _ _ _).returns hpages
      have hchanges : changesOf seam acc s.db = changes := by
        rw [changesOf, hemail, Option.bind_some, hcollect]
      cases changes with
      | none =>
        obtain ⟨_, s₃, hclear, hret⟩ := returns_bind.mp hret
        obtain ⟨-, rfl⟩ := returns_execute.mp hclear
        obtain ⟨_, s₄, hseed, hret⟩ := returns_bind.mp hret
        obtain ⟨-, rfl⟩ := returns_pure.mp hret
        obtain ⟨hre, hrm⟩ := lists_seedEmailState hseed
        exact changesDone_of_none hchanges (hre.trans hsame.refetched) (hrm.trans hsame.removed)
      | some changes =>
        obtain ⟨_, s₃, hmod, hret⟩ := returns_bind.mp hret
        obtain rfl := returns_modify.mp hmod
        have hgather := gathers_refetchChunks hret
        refine ⟨?_, ?_, ?_⟩
        · intro id
          rw [hgather.removed]
          refine List.mem_append.trans ?_
          rw [hsame.removed]
          refine or_congr Iff.rfl ?_
          simp only [ReportedDestroyed, hchanges, Option.some.injEq, exists_eq_left']
        · intro id
          rw [hgather.refetched]
          dsimp only
          rw [hsame.refetched]
          refine or_congr Iff.rfl ?_
          simp only [FetchedAgain, hchanges, Option.some.injEq, exists_eq_left', Nat.zero_add]
        · intro ch hch x hx
          rw [hchanges] at hch
          cases hch
          exact hgather.noted x hx

theorem kept_changes (fails : Nat → Option SyncError) (seam : Seam) (acc : AccountId) (s : SyncRun) :
    Kept acc (Refetched seam acc s.db) (Written seam acc s.db []) s
      ((syncEmailChanges fails seam acc (anchorOf s.db acc)).outcome s).2 := by
  apply kept_syncEmailChanges
  · intro since changes hsince hcollect k chunk hk e he
    refine .inl ⟨changes, ?_, k, chunk, hk, List.mem_map_of_mem he⟩
    rw [changesOf, emailStateOf, hsince]
    exact hcollect
  · intro a since ha hsince hcollect
    refine .inl ⟨a, ha, rfl, ?_, rfl⟩
    rw [changesOf, emailStateOf, ha, Option.bind_some, hsince]
    exact hcollect

/-- What the run has gathered when it comes to the deletions, in terms of the database with
the folders in place. -/
structure Gathered (seam : Seam) (acc : AccountId) (db : Db) (anchor : Option FolderId)
    (t : SyncRun) : Prop where
  anchor : anchor = anchorOf db acc
  removed : ∀ id, id ∈ t.removed ↔ ReportedDestroyed seam acc db id ∨
    ∃ mb ∈ seam.mailboxes, RemovedFrom seam acc db mb.id id
  refetched : ∀ id, id ∈ t.refetched ↔ Refetched seam acc db id
  noted : ∀ changes, changesOf seam acc db = some changes → ∀ x, changes.newState = some x →
    t.newEmailState = some x
  cursors : ∀ mb ∈ seam.mailboxes, ∃ q, NewState seam acc db mb.id q ∧
    cursorOf t.db acc mb.id = some q

/-- Steps 1 to 3 when they return. -/
theorem gathered_of_returns (hans : SeamAnswers h sch seam) {fuel : Nat} {s t : SyncRun}
    {r : Option FolderId × Nat × Nat} (hre : s.refetched = []) (hrm : s.removed = [])
    (hret : Returns (gather fails seam acc fuel) s r t) :
    Gathered seam acc (prepareFolders s.db acc seam.mailboxes) r.1 t ∧
      ∃ s₁, s₁.db = prepareFolders s.db acc seam.mailboxes ∧
        Kept acc (Refetched seam acc s₁.db)
          (Written seam acc s₁.db (seam.mailboxes.map JmapMailbox.id)) s₁ t := by
  unfold gather at hret
  obtain ⟨_, s₁, hawait, hret⟩ := returns_bind.mp hret
  obtain ⟨-, rfl⟩ := returns_awaitCall.mp hawait
  obtain ⟨_, s₂, hups, hret⟩ := returns_bind.mp hret
  obtain ⟨_, s₃, hlinks, hret⟩ := returns_bind.mp hret
  obtain ⟨anchor, s₄, hanchor, hret⟩ := returns_bind.mp hret
  obtain ⟨hsame, hdb⟩ := prepared_of_upserts hups
  obtain ⟨hsame', hdb'⟩ := prepared_of_links hlinks
  obtain ⟨rfl, n, rfl⟩ := anchor_of_returns hanchor
  have hlists := SameLists.trans _ _ _ hsame hsame'
  have hprep : s₃.db = prepareFolders s.db acc seam.mailboxes := by
    rw [hdb', hdb]
    rfl
  -- steps 2 and 3 start from the folders in place
  obtain ⟨r₁, s₅, hstep2, hret⟩ := returns_bind.mp hret
  obtain ⟨r₂, s₆, hstep3, hret⟩ := returns_bind.mp hret
  obtain ⟨rfl, rfl⟩ := returns_pure.mp hret
  rw [← hprep]
  have hkept := kept_changes fails seam acc { s₃ with calls := n }
  rw [hstep2] at hkept
  have hdisj : ∀ mb ∈ seam.mailboxes, mb.id ∉ ([] : List MailboxId) := fun _ _ hm => by cases hm
  have hchanges := changesDone_of_returns (s := { s₃ with calls := n }) hstep2
  have hturns := turnsDone_of_returns hans seam.mailboxes (fun _ hm => hm) hans.distinct
    hkept hdisj hstep3
  have hkept' := kept_syncMailboxes fails hans seam.mailboxes (fun _ hm => hm) hans.distinct fuel
    hkept hdisj
  rw [hstep3] at hkept'
  refine ⟨⟨rfl, ?_, ?_, ?_, hturns.cursors⟩, { s₃ with calls := n }, rfl, ?_⟩
  · intro id
    rw [hturns.removed, hchanges.removed]
    show (id ∈ s₃.removed ∨ _) ∨ _ ↔ _
    rw [hlists.removed]
    simp [hrm]
  · intro id
    rw [hturns.refetched, hchanges.refetched]
    show (id ∈ s₃.refetched ∨ _) ∨ _ ↔ _
    rw [hlists.refetched]
    simp [hre, Refetched]
  · intro changes hch x hx
    exact hturns.noted x (hchanges.noted changes hch x hx)
  · apply Kept.trans _ s₅ _
    · exact hkept.mono fun _ _ => Written.mono fun m hm => by cases hm
    · exact hkept'

/-- Messages and cursors stay. -/
structure SameMail (s t : SyncRun) : Prop where
  messages : t.db.messages = s.db.messages
  cursors : t.db.cursors = s.db.cursors

theorem SameMail.refl (s : SyncRun) : SameMail s s := ⟨rfl, rfl⟩

theorem SameMail.trans (s t u : SyncRun) (h : SameMail s t) (h' : SameMail t u) : SameMail s u :=
  ⟨h'.messages.trans h.messages, h'.cursors.trans h.cursors⟩

theorem sameMail_awaitCall : Keeps SameMail (awaitCall fails) := by
  intro s
  rw [outcome_awaitCall]
  exact ⟨rfl, rfl⟩

theorem sameMail_select {α : Type} (f : Db → α) : Keeps SameMail (select fails f) := by
  apply keeps_bind SameMail.trans sameMail_awaitCall
  intro _
  apply keeps_bind SameMail.trans (keeps_get SameMail.refl)
  intro _
  exact keeps_pure SameMail.refl _

theorem sameMail_upsertMailbox (mb : JmapMailbox) : Keeps SameMail (upsertMailbox fails acc mb) := by
  apply keeps_bind SameMail.trans sameMail_awaitCall
  intro _
  exact keeps_modify fun _ => ⟨rfl, rfl⟩

theorem sameMail_linkParent (mb : JmapMailbox) : Keeps SameMail (linkParent fails acc mb) := by
  intro s
  unfold linkParent
  cases hp : mb.parentId with
  | none => exact SameMail.refl s
  | some parent =>
    apply outcome_bind_of_returns SameMail.trans (sameMail_select _ s)
    intro linked t hsel
    obtain ⟨-, hlinked, rfl⟩ := returns_select.mp hsel
    cases linked with
    | none => exact SameMail.refl _
    | some db =>
      have hframe := @linkedTo_frame acc s.db mb
      unfold linkedTo at hframe
      rw [hp] at hframe
      dsimp only at hframe
      rw [← hlinked] at hframe
      exact ⟨hframe.1, hframe.2⟩

theorem sameMail_emailStateAnchor : Keeps SameMail (emailStateAnchor fails acc) := by
  apply keeps_bind SameMail.trans (sameMail_select _)
  intro found
  cases found with
  | some folder => exact keeps_pure SameMail.refl _
  | none => exact sameMail_select _

/-- The writes of a run before it deletes, against the database it started from. -/
structure RunKept (seam : Seam) (acc : AccountId) (db db' : Db) : Prop where
  grows : ∀ id, db.Stored acc id → db'.Stored acc id
  stored : ∀ id, db'.Stored acc id → db.Stored acc id ∨
    Refetched seam acc (prepareFolders db acc seam.mailboxes) id
  cursors : ∀ k, db'.cursors.find k = db.cursors.find k ∨
    Written seam acc (prepareFolders db acc seam.mailboxes) (seam.mailboxes.map JmapMailbox.id) k
      (db'.cursors.find k)

theorem SameMail.runKept {s t : SyncRun} (hst : SameMail s t) (seam : Seam) (acc : AccountId) :
    RunKept seam acc s.db t.db := by
  refine ⟨?_, ?_, ?_⟩
  · intro id hid
    rw [Db.Stored, hst.messages]
    exact hid
  · intro id hid
    rw [Db.Stored, hst.messages] at hid
    exact .inl hid
  · intro k
    rw [hst.cursors]
    exact .inl rfl

theorem Kept.runKept {s t : SyncRun} {db : Db}
    (hdb : s.db = prepareFolders db acc seam.mailboxes)
    (hk : Kept acc (Refetched seam acc s.db)
      (Written seam acc s.db (seam.mailboxes.map JmapMailbox.id)) s t) :
    RunKept seam acc db t.db := by
  obtain ⟨hm, hc⟩ := @prepareFolders_frame acc db seam.mailboxes
  have hstored : ∀ id, s.db.Stored acc id ↔ db.Stored acc id := by
    intro id
    rw [Db.Stored, hdb, hm, Db.Stored]
  rw [hdb] at hk
  refine ⟨?_, ?_, ?_⟩
  · exact fun id hid => hk.grows id ((hstored id).mpr hid)
  · exact fun id hid => (hk.stored id hid).imp (hstored id).mp fun h => h
  · intro k
    have := hk.cursors k
    rw [hdb, hc] at this
    exact this

theorem runKept_gather (fails : Nat → Option SyncError) (acc : AccountId)
    (hans : SeamAnswers h sch seam) (fuel : Nat) (s : SyncRun) :
    RunKept seam acc s.db ((gather fails seam acc fuel).outcome s).2.db := by
  have hup : Keeps SameMail (forEach (upsertMailbox fails acc) seam.mailboxes) :=
    keeps_forEach SameMail.refl SameMail.trans fun mb _ => sameMail_upsertMailbox mb
  have hlink : Keeps SameMail (forEach (linkParent fails acc) seam.mailboxes) :=
    keeps_forEach SameMail.refl SameMail.trans fun mb _ => sameMail_linkParent mb
  unfold gather
  apply outcome_bind_cases (P := fun t : SyncRun => RunKept seam acc s.db t.db)
    ((sameMail_awaitCall s).runKept seam acc)
  intro _ s₁ hawait
  have h₁ := sameMail_awaitCall.returns hawait
  obtain ⟨-, rfl⟩ := returns_awaitCall.mp hawait
  apply outcome_bind_cases (P := fun t : SyncRun => RunKept seam acc s.db t.db)
    ((SameMail.trans _ _ _ h₁ (hup _)).runKept seam acc)
  intro _ s₂ hups
  have h₂ := SameMail.trans _ _ _ h₁ (hup.returns hups)
  apply outcome_bind_cases (P := fun t : SyncRun => RunKept seam acc s.db t.db)
    ((SameMail.trans _ _ _ h₂ (hlink _)).runKept seam acc)
  intro _ s₃ hlinks
  have h₃ := SameMail.trans _ _ _ h₂ (hlink.returns hlinks)
  apply outcome_bind_cases (P := fun t : SyncRun => RunKept seam acc s.db t.db)
    ((SameMail.trans _ _ _ h₃ (sameMail_emailStateAnchor _)).runKept seam acc)
  intro anchor s₄ hanchor
  obtain ⟨-, hdb⟩ := prepared_of_upserts hups
  obtain ⟨-, hdb'⟩ := prepared_of_links hlinks
  obtain ⟨rfl, n, rfl⟩ := anchor_of_returns hanchor
  have hprep : s₃.db = prepareFolders s.db acc seam.mailboxes := by
    rw [hdb', hdb]
    rfl
  apply Kept.runKept (s := { s₃ with calls := n }) hprep
  have hkept := kept_changes fails seam acc { s₃ with calls := n }
  apply outcome_bind_of_returns Kept.trans
  · exact hkept.mono fun _ _ => Written.mono fun m hm => by cases hm
  · intro r t hret
    rw [hret] at hkept
    apply outcome_bind_of_returns Kept.trans
    · exact kept_syncMailboxes fails hans seam.mailboxes (fun _ hm => hm) hans.distinct fuel
        hkept fun _ _ hm => by cases hm
    · intro _ u _
      exact Kept.refl u

end Lists

end Lyra
