import Lyra.Jmap.Gather

/-!
# Runs without failures return

Where no call fails, every step returns: the folders of the listed mailboxes are in place
after step 1, and a full query comes to a short page, because an account stays within
some size.
-/

namespace Lyra

open Lyra.Lib Fallible

section Total

variable {seam : Seam} {acc : AccountId}

/-- No call fails. -/
def noFailure : Nat → Option SyncError := fun _ => none

theorem total_awaitCall : Total (awaitCall noFailure) :=
  fun _ => ⟨(), _, returns_awaitCall.mpr ⟨rfl, rfl⟩⟩

theorem total_select {α : Type} (f : Db → α) : Total (select noFailure f) :=
  fun _ => ⟨_, _, returns_select.mpr ⟨rfl, rfl, rfl⟩⟩

theorem total_execute (f : Db → Db) : Total (execute noFailure f) :=
  fun _ => ⟨(), _, returns_execute.mpr ⟨rfl, rfl⟩⟩

theorem total_persistAndDownload (folder : FolderId) (emails : List JmapEmail) (qs : Option Nat) :
    Total (persistAndDownload noFailure acc folder emails qs) := by
  apply total_bind (total_select _)
  intro tally
  apply total_bind (total_modify _)
  intro _
  apply total_bind
  · unfold downloadAttachments
    split
    · exact total_pure _
    · exact total_awaitCall
  · intro _
    exact total_pure _

theorem total_resolveJmapEmailFolder (mbs : List MailboxId) :
    Total (resolveJmapEmailFolder noFailure acc mbs) := by
  induction mbs with
  | nil => exact total_pure _
  | cons mb mbs ih =>
    apply total_bind (total_select _)
    intro found
    cases found with
    | none => exact ih
    | some folder => exact total_pure _

theorem total_groupByFolder (emails : List JmapEmail) (groups : List (FolderId × List JmapEmail)) :
    Total (groupByFolder noFailure acc emails groups) := by
  induction emails generalizing groups with
  | nil => exact total_pure _
  | cons email emails ih =>
    apply total_bind (total_modify _)
    intro _
    apply total_bind (total_resolveJmapEmailFolder _)
    intro found
    cases found with
    | none => exact ih _
    | some folder => exact ih _

theorem total_persistGroups (groups : List (FolderId × List JmapEmail)) :
    Total (persistGroups noFailure acc groups) := by
  induction groups with
  | nil => exact total_pure _
  | cons g groups ih =>
    apply total_bind (total_persistAndDownload _ _ _)
    intro _
    apply total_bind ih
    intro _
    exact total_pure _

theorem total_refetchChunks (cs : List (List EmailId)) (k : Nat) :
    Total (refetchChunks noFailure seam acc k cs) := by
  induction cs generalizing k with
  | nil => exact total_pure _
  | cons chunk cs ih =>
    apply total_bind total_awaitCall
    intro _
    apply total_bind (total_groupByFolder _ _)
    intro _
    apply total_bind (total_persistGroups _)
    intro _
    apply total_bind (ih _)
    intro _
    exact total_pure _

theorem total_changesPages (pages k since : Nat) (updated destroyed : List EmailId) :
    Total (changesPages noFailure seam pages k since updated destroyed) := by
  induction pages generalizing k since updated destroyed with
  | zero => exact total_pure _
  | succ pages ih =>
    apply total_bind total_awaitCall
    intro _
    split
    · exact total_pure _
    · split
      · exact ih _ _ _ _
      · exact total_pure _

theorem total_seedEmailState : Total (seedEmailState noFailure seam) := by
  unfold seedEmailState
  split
  · exact total_pure _
  · apply total_bind total_awaitCall
    intro _
    exact total_modify _

theorem total_emailStateAnchor : Total (emailStateAnchor noFailure acc) := by
  apply total_bind (total_select _)
  intro found
  cases found with
  | some folder => exact total_pure _
  | none => exact total_select _

theorem total_syncEmailChanges (anchor : Option FolderId) :
    Total (syncEmailChanges noFailure seam acc anchor) := by
  cases anchor with
  | none => exact total_pure _
  | some anchor =>
    apply total_bind (total_select _)
    intro state
    cases state with
    | none =>
      apply total_bind total_seedEmailState
      intro _
      exact total_pure _
    | some since =>
      apply total_bind (total_changesPages _ _ _ _ _)
      intro changes
      cases changes with
      | none =>
        apply total_bind (total_execute _)
        intro _
        apply total_bind total_seedEmailState
        intro _
        exact total_pure _
      | some changes =>
        apply total_bind (total_modify _)
        intro _
        exact total_refetchChunks _ _

theorem total_addedChunks {folder : FolderId} {mb : MailboxId} {qs : Option Nat}
    (cs : List (List EmailId)) (k : Nat) :
    Total (addedChunks noFailure seam acc folder mb qs k cs) := by
  induction cs generalizing k with
  | nil => exact total_pure _
  | cons chunk cs ih =>
    apply total_bind total_awaitCall
    intro _
    apply total_bind (total_modify _)
    intro _
    apply total_bind (total_persistAndDownload _ _ _)
    intro _
    apply total_bind (ih _)
    intro _
    exact total_pure _

theorem total_deleteJmapMessages (ids : List EmailId) :
    Total (deleteJmapMessages noFailure acc ids) := by
  have hchunks : ∀ cs : List (List EmailId), Total (deleteChunks noFailure acc cs) := by
    intro cs
    induction cs with
    | nil => exact total_pure _
    | cons chunk cs ih =>
      apply total_bind
      · apply total_bind (total_select _)
        intro _
        apply total_bind (total_select _)
        intro _
        apply total_bind (total_modify _)
        intro _
        exact total_pure _
      · intro _
        apply total_bind ih
        intro _
        exact total_pure _
  apply total_bind (hchunks _)
  intro out
  apply total_bind (total_forEach fun folder _ => total_execute _)
  intro _
  exact total_pure _

variable {h : History} {sch : Schedule}

/-- The pages come to an end: a full page needs a mailbox that reaches beyond it. -/
theorem total_queryPages {folder : FolderId} {mb : MailboxId} (hans : PagesAnswer h sch seam mb)
    {fuel k : Nat} (hfull : ∀ j, j < k → queryPage ≤ (seam.page mb j).ids.length)
    (hfuel : h.size < queryPage * (k + fuel)) :
    Total (queryPages noFailure seam acc folder mb fuel k) := by
  induction fuel generalizing k with
  | zero =>
    exfalso
    cases k with
    | zero => simp at hfuel
    | succ k =>
      have hk := wire_of_full hans fun j hj => hfull j (Nat.lt_succ_of_lt hj)
      have hlen := hfull k (Nat.lt_succ_self k)
      rcases length_page_le hans hk with hle | hnil
      · rw [Nat.add_zero, Nat.mul_succ] at hfuel
        omega
      · rw [hnil] at hlen
        simp [queryPage] at hlen
  | succ fuel ih =>
    apply total_bind total_awaitCall
    intro _
    apply total_bind (total_modify _)
    intro _
    change Fallible.Total (if (seam.page mb k).ids.length < queryPage then _ else _)
    split
    case isTrue => exact total_persistAndDownload _ _ _
    case isFalse hlong =>
      apply total_bind (total_persistAndDownload _ _ _)
      intro _
      apply total_bind
      · apply ih
        · intro j hj
          rcases Nat.lt_succ_iff_lt_or_eq.mp hj with hj | rfl
          · exact hfull j hj
          · exact Nat.le_of_not_lt hlong
        · rw [show k + 1 + fuel = k + (fuel + 1) by omega]
          exact hfuel
      · intro _
        exact total_pure _

/-! ## Folders in place -/

/-- Every listed mailbox has a local folder. -/
def FoldersReady (acc : AccountId) (mbs : List MailboxId) (db : Db) : Prop :=
  ∀ mb ∈ mbs, (findFolderId db acc mb).isSome = true

theorem findFolderId_upsertJmapFolder (db : Db) (mb name : Text) (role : Option Text)
    (mb' : MailboxId) :
    (findFolderId (upsertJmapFolder db acc mb name role) acc mb').isSome =
      (decide (mb' = mb) || (findFolderId db acc mb').isSome) := by
  have hfind := db.folders.find_upsert (newFolderRow db acc mb name role none)
    (fun f => { f with name := name, role := role }) (fun _ => rfl) (fun _ => rfl)
    (fun _ f hf => db.newFolderId_fresh f hf) (k := (acc, mb)) rfl (acc, mb')
  unfold findFolderId
  rw [show (upsertJmapFolder db acc mb name role).folders.find (acc, mb') = _ from hfind]
  split
  case isTrue e =>
    have he : mb' = mb := congrArg Prod.snd e
    simp [he]
  case isFalse e =>
    have he : mb' ≠ mb := fun he => e (by rw [he])
    simp [he]

theorem ready_upserts (mbs : List JmapMailbox) (db : Db) {mb : MailboxId}
    (hmb : mb ∈ mbs.map JmapMailbox.id ∨ (findFolderId db acc mb).isSome = true) :
    (findFolderId (mbs.foldl (fun db mb =>
      upsertJmapFolder db acc mb.id mb.name mb.folderRole) db) acc mb).isSome = true := by
  induction mbs generalizing db with
  | nil => exact hmb.resolve_left fun h => by cases h
  | cons m mbs ih =>
    apply ih
    rw [findFolderId_upsertJmapFolder, Bool.or_eq_true, decide_eq_true_eq]
    rcases hmb with hmb | hmb
    · rcases List.mem_cons.mp hmb with rfl | hmb
      · exact .inr (.inl rfl)
      · exact .inl hmb
    · exact .inr (.inr hmb)

theorem findFolderId_linkJmapFolderParent {db db' : Db} {child parent mb : MailboxId}
    (hl : linkJmapFolderParent db acc child parent = some db') :
    findFolderId db' acc mb = findFolderId db acc mb := by
  unfold linkJmapFolderParent at hl
  obtain ⟨c, -, hl⟩ := Option.bind_eq_some_iff.mp hl
  obtain ⟨p, -, hl⟩ := Option.bind_eq_some_iff.mp hl
  cases hl
  unfold findFolderId
  apply find_id_updateWhere
  · exact fun _ => rfl
  · exact fun _ => rfl

/-- With the folders in place, the links to the parents succeed. -/
theorem returns_linkParent {mbs : List MailboxId} {mb : JmapMailbox} (hmb : mb.id ∈ mbs)
    (hparent : ∀ parent, mb.parentId = some parent → parent ∈ mbs) {s : SyncRun}
    (hready : FoldersReady acc mbs s.db) :
    ∃ t, Returns (linkParent noFailure acc mb) s () t ∧ FoldersReady acc mbs t.db := by
  unfold linkParent
  cases hp : mb.parentId with
  | none => exact ⟨s, rfl, hready⟩
  | some parent =>
    obtain ⟨c, hc⟩ := Option.isSome_iff_exists.mp (hready mb.id hmb)
    obtain ⟨p, hp'⟩ := Option.isSome_iff_exists.mp (hready parent (hparent parent hp))
    have hlink : ∃ db', linkJmapFolderParent s.db acc mb.id parent = some db' := by
      unfold linkJmapFolderParent
      rw [hc, hp']
      exact ⟨_, rfl⟩
    obtain ⟨db', hdb'⟩ := hlink
    refine ⟨{ s with calls := s.calls + 1, db := db' }, ?_, ?_⟩
    · apply returns_bind.mpr
      refine ⟨some db', { s with calls := s.calls + 1 }, ?_, rfl⟩
      exact returns_select.mpr ⟨rfl, hdb'.symm, rfl⟩
    · intro m hm
      rw [findFolderId_linkJmapFolderParent hdb']
      exact hready m hm

theorem returns_links {mbs : List MailboxId} (l : List JmapMailbox)
    (hl : ∀ mb ∈ l, mb.id ∈ mbs ∧ ∀ parent, mb.parentId = some parent → parent ∈ mbs)
    {s : SyncRun} (hready : FoldersReady acc mbs s.db) :
    ∃ t, Returns (forEach (linkParent noFailure acc) l) s () t ∧ FoldersReady acc mbs t.db := by
  induction l generalizing s with
  | nil => exact ⟨s, rfl, hready⟩
  | cons mb l ih =>
    obtain ⟨hmb, hparent⟩ := hl mb List.mem_cons_self
    obtain ⟨t, hone, hready'⟩ := returns_linkParent hmb hparent hready
    obtain ⟨u, hrest, hready''⟩ := ih (fun m hm => hl m (List.mem_cons_of_mem _ hm)) hready'
    exact ⟨u, returns_forEach_cons.mpr ⟨t, hone, hrest⟩, hready''⟩

theorem returns_syncMailbox (hans : PagesAnswer h sch seam mb) {s : SyncRun}
    (hready : (findFolderId s.db acc mb).isSome = true) :
    ∃ r t, Returns (syncMailbox noFailure seam acc (h.size + 1) mb) s r t := by
  have hquery : ∀ folder, Total (fullFolderQuery noFailure seam acc (h.size + 1) folder mb) := by
    intro folder
    apply total_queryPages hans
    · exact fun j hj => absurd hj (Nat.not_lt_zero j)
    · rw [Nat.zero_add]
      simp only [queryPage]
      omega
  obtain ⟨folder, hfolder⟩ := Option.isSome_iff_exists.mp hready
  -- what follows the lookup of the folder is total
  have hlookup : ∀ rest : Option FolderId → SyncM (Nat × Nat), Total (rest (some folder)) →
      ∃ r t, Returns ((select noFailure fun db => findFolderId db acc mb) >>= rest) s r t := by
    intro rest hrest
    obtain ⟨r, t, hret⟩ := hrest { s with calls := s.calls + 1 }
    refine ⟨r, t, returns_bind.mpr ⟨some folder, { s with calls := s.calls + 1 }, ?_, hret⟩⟩
    exact returns_select.mpr ⟨rfl, hfolder.symm, rfl⟩
  apply hlookup
  apply total_bind (total_select _)
  intro state
  cases state with
  | none => exact hquery folder
  | some since =>
    apply total_bind total_awaitCall
    intro _
    split
    · apply total_bind (total_modify _)
      intro _
      unfold persistAdded
      split
      · exact total_persistAndDownload _ _ _
      · exact total_addedChunks _ _
    · apply total_bind (total_execute _)
      intro _
      exact hquery folder

theorem returns_syncMailboxes (hans : SeamAnswers h sch seam) {s₁ : SyncRun}
    (hready : FoldersReady acc (seam.mailboxes.map JmapMailbox.id) s₁.db)
    (rest : List JmapMailbox) (hrest : ∀ mb ∈ rest, mb ∈ seam.mailboxes)
    (hnodup : (rest.map JmapMailbox.id).Nodup) {s : SyncRun} {done : List MailboxId}
    (hs : Kept acc (Refetched seam acc s₁.db) (Written seam acc s₁.db done) s₁ s)
    (hdisj : ∀ mb ∈ rest, mb.id ∉ done) :
    ∃ r t, Returns (syncMailboxes noFailure seam acc (h.size + 1) rest) s r t := by
  induction rest generalizing s done with
  | nil => exact ⟨(0, 0), s, rfl⟩
  | cons mb rest ih =>
    have hmb := hrest mb List.mem_cons_self
    have hfound : (findFolderId s.db acc mb.id).isSome = true := by
      rw [hs.folders]
      exact hready _ (List.mem_map_of_mem hmb)
    obtain ⟨r₁, t₁, hone⟩ := returns_syncMailbox (hans.pages mb.id) hfound
    have hturn := kept_syncMailbox noFailure hans hs hmb (hdisj mb List.mem_cons_self) (h.size + 1)
    rw [hone] at hturn
    obtain ⟨hst, hrest', hnodup', hdisj'⟩ := nextTurn hs hturn hrest hnodup hdisj
    obtain ⟨r₂, t₂, htail⟩ := ih hrest' hnodup' hst hdisj'
    exact ⟨_, t₂, returns_bind.mpr ⟨r₁, t₁, hone, returns_bind.mpr ⟨r₂, t₂, htail, rfl⟩⟩⟩

/-- Steps 1 to 3 return. -/
theorem returns_gather (acc : AccountId) (hans : SeamAnswers h sch seam) (s : SyncRun) :
    ∃ r t, Returns (gather noFailure seam acc (h.size + 1)) s r t := by
  have hups : Total (forEach (upsertMailbox noFailure acc) seam.mailboxes) :=
    total_forEach fun mb _ => total_execute _
  have hfind : Total (emailStateAnchor noFailure acc) := total_emailStateAnchor
  have hstep : ∀ anchor, Total (syncEmailChanges noFailure seam acc anchor) :=
    total_syncEmailChanges
  have hdisj : ∀ mb ∈ seam.mailboxes, mb.id ∉ ([] : List MailboxId) := fun _ _ hm => by cases hm
  obtain ⟨_, s₁, hawait⟩ := total_awaitCall s
  obtain ⟨_, s₂, hup⟩ := hups s₁
  have hready : FoldersReady acc (seam.mailboxes.map JmapMailbox.id) s₂.db := by
    intro mb hmb
    rw [(prepared_of_upserts hup).2]
    exact ready_upserts seam.mailboxes s₁.db (.inl hmb)
  obtain ⟨s₃, hlink, hready'⟩ := returns_links seam.mailboxes
    (fun mb hmb => ⟨List.mem_map_of_mem hmb, hans.parents mb hmb⟩) hready
  obtain ⟨anchor, s₄, hanchor⟩ := hfind s₃
  obtain ⟨rfl, n, rfl⟩ := anchor_of_returns hanchor
  obtain ⟨r₅, s₅, hchanges⟩ := hstep (anchorOf s₃.db acc) { s₃ with calls := n }
  have hkept := kept_changes noFailure seam acc { s₃ with calls := n }
  rw [hchanges] at hkept
  have hready₄ : FoldersReady acc (seam.mailboxes.map JmapMailbox.id)
      ({ s₃ with calls := n } : SyncRun).db := hready'
  obtain ⟨r₆, s₆, hturns⟩ := returns_syncMailboxes hans hready₄ seam.mailboxes (fun _ hm => hm)
    hans.distinct hkept hdisj
  refine ⟨(anchorOf s₃.db acc, r₅.1 + r₆.1, r₅.2 + r₆.2), s₆, ?_⟩
  unfold gather
  refine returns_bind.mpr ⟨_, s₁, hawait, returns_bind.mpr ⟨_, s₂, hup, ?_⟩⟩
  refine returns_bind.mpr ⟨_, s₃, hlink, returns_bind.mpr ⟨_, _, hanchor, ?_⟩⟩
  exact returns_bind.mpr ⟨r₅, s₅, hchanges, returns_bind.mpr ⟨r₆, s₆, hturns, rfl⟩⟩

end Total

end Lyra
