import Lyra.Jmap.Completion

/-!
# Deletions of a run

A run deletes the rows of the ids that were reported removed or destroyed and that it has
not re-fetched.  A removal from one mailbox is no deletion when the message is still in
another one, which the run knows only from an answer of its own.

* `deletions_safe_iff`: no row of a message that is still on the server is deleted, at
  whatever point the run fails, exactly when every such removal is reported elsewhere in
  the same run;
* `deletes_moved_message`: a message that moves to a mailbox after that mailbox's turn.
-/

namespace Lyra

open Lyra.Lib Fallible

/-! ## The deleting step -/

section Delete

variable {fails : Nat → Option SyncError} {acc : AccountId}

theorem hasExternalId_of_key {ids : List EmailId} {r : MessageRow} {id : EmailId}
    (hk : r.key = some (acc, id)) : hasExternalId acc ids r = ids.contains id := by
  obtain ⟨e, he, hpair⟩ := Option.map_eq_some_iff.mp hk
  cases hpair
  simp [hasExternalId, he]

theorem stored_deleteWhere (db : Db) (ids : List EmailId) (id : EmailId) :
    ({ db with messages := db.messages.deleteWhere (hasExternalId acc ids) } : Db).Stored acc id ↔
      db.Stored acc id ∧ id ∉ ids := by
  unfold Db.Stored
  dsimp only
  rw [KeyedTable.find_deleteWhere]
  cases hf : db.messages.find (acc, id) with
  | none => simp
  | some r =>
    obtain ⟨-, hk⟩ := (db.messages.find_eq_some_iff _ r).mp hf
    by_cases hid : id ∈ ids
    · simp [Option.filter, hasExternalId_of_key hk, hid]
    · simp [Option.filter, hasExternalId_of_key hk, hid]

theorem sameMail_updateCounts (folder : FolderId) :
    Keeps SameMail (execute fails fun db => updateFolderCountsInTx db folder) := by
  apply keeps_bind SameMail.trans sameMail_awaitCall
  intro _
  exact keeps_modify fun _ => ⟨rfl, rfl⟩

/-- Rows of other ids are spared. -/
def Spares (acc : AccountId) (ids : List EmailId) (s t : SyncRun) : Prop :=
  ∀ id, id ∉ ids → s.db.Stored acc id → t.db.Stored acc id

theorem Spares.refl (ids : List EmailId) (s : SyncRun) : Spares acc ids s s := fun _ _ h => h

theorem Spares.trans (ids : List EmailId) (s t u : SyncRun) (h : Spares acc ids s t)
    (h' : Spares acc ids t u) : Spares acc ids s u :=
  fun id hid hs => h' id hid (h id hid hs)

theorem SameMail.spares {s t : SyncRun} (h : SameMail s t) (ids : List EmailId) :
    Spares acc ids s t := by
  intro id _ hid
  rw [Db.Stored, h.messages]
  exact hid

theorem spares_deleteChunks (ids : List EmailId) (cs : List (List EmailId))
    (hcs : ∀ chunk ∈ cs, ∀ id ∈ chunk, id ∈ ids) :
    Keeps (Spares acc ids) (deleteChunks fails acc cs) := by
  induction cs with
  | nil => exact keeps_pure (Spares.refl ids) _
  | cons chunk cs ih =>
    apply keeps_bind (Spares.trans ids)
    · apply keeps_bind (Spares.trans ids) fun s => (sameMail_select _ s).spares ids
      intro _
      apply keeps_bind (Spares.trans ids) fun s => (sameMail_select _ s).spares ids
      intro _
      apply keeps_bind (Spares.trans ids)
      · apply keeps_modify
        intro s id hid hs
        apply (stored_deleteWhere s.db chunk id).mpr
        exact ⟨hs, fun h => hid (hcs chunk List.mem_cons_self id h)⟩
      · intro _
        exact keeps_pure (Spares.refl ids) _
    · intro _
      apply keeps_bind (Spares.trans ids)
      · exact ih fun c hc => hcs c (List.mem_cons_of_mem _ hc)
      · intro _
        exact keeps_pure (Spares.refl ids) _

theorem spares_deleteJmapMessages (ids : List EmailId) :
    Keeps (Spares acc ids) (deleteJmapMessages fails acc ids) := by
  apply keeps_bind (Spares.trans ids)
  · apply spares_deleteChunks
    intro chunk hchunk id hid
    exact mem_of_mem_chunks idsChunk (by decide) ids hchunk hid
  · intro out
    apply keeps_bind (Spares.trans ids)
    · apply keeps_forEach (Spares.refl ids) (Spares.trans ids)
      intro folder _ s
      exact (sameMail_updateCounts folder s).spares ids
    · intro _
      exact keeps_pure (Spares.refl ids) _

theorem stored_deleteChunk {chunk : List EmailId} {s t : SyncRun} {r : List FolderId × Nat}
    (h : Returns (deleteChunk fails acc chunk) s r t) (id : EmailId) :
    t.db.Stored acc id ↔ s.db.Stored acc id ∧ id ∉ chunk := by
  unfold deleteChunk at h
  obtain ⟨_, s₁, hsel, h⟩ := returns_bind.mp h
  obtain ⟨-, -, rfl⟩ := returns_select.mp hsel
  obtain ⟨_, s₂, hsel', h⟩ := returns_bind.mp h
  obtain ⟨-, -, rfl⟩ := returns_select.mp hsel'
  obtain ⟨_, s₃, hmod, h⟩ := returns_bind.mp h
  obtain rfl := returns_modify.mp hmod
  obtain ⟨-, rfl⟩ := returns_pure.mp h
  exact stored_deleteWhere s.db chunk id

theorem stored_deleteChunks {cs : List (List EmailId)} {s t : SyncRun} {r : List FolderId × Nat}
    (h : Returns (deleteChunks fails acc cs) s r t) (id : EmailId) :
    t.db.Stored acc id ↔ s.db.Stored acc id ∧ id ∉ cs.flatten := by
  induction cs generalizing s r with
  | nil =>
    obtain ⟨-, rfl⟩ := returns_pure.mp h
    simp
  | cons chunk cs ih =>
    unfold deleteChunks at h
    obtain ⟨_, s₁, hone, h⟩ := returns_bind.mp h
    obtain ⟨_, s₂, hrest, h⟩ := returns_bind.mp h
    obtain ⟨-, rfl⟩ := returns_pure.mp h
    rw [ih hrest, stored_deleteChunk hone, List.flatten_cons, List.mem_append, not_or, and_assoc]

/-- When the step returns, exactly the given ids are gone. -/
theorem stored_deleteJmapMessages {ids : List EmailId} {s t : SyncRun} {n : Nat}
    (h : Returns (deleteJmapMessages fails acc ids) s n t) (id : EmailId) :
    t.db.Stored acc id ↔ s.db.Stored acc id ∧ id ∉ ids := by
  unfold deleteJmapMessages at h
  obtain ⟨out, s₁, hdel, h⟩ := returns_bind.mp h
  obtain ⟨_, s₂, hcounts, h⟩ := returns_bind.mp h
  obtain ⟨-, rfl⟩ := returns_pure.mp h
  have hsame : SameMail s₁ t := by
    apply Keeps.returns _ hcounts
    exact keeps_forEach SameMail.refl SameMail.trans fun folder _ => sameMail_updateCounts folder
  rw [Db.Stored, hsame.messages]
  refine (stored_deleteChunks hdel id).trans ?_
  rw [flatten_chunks idsChunk (by decide)]

theorem mem_planDeletions {removed refetched : List EmailId} {id : EmailId} :
    id ∈ planDeletions removed refetched ↔ id ∈ removed ∧ id ∉ refetched := by
  simp [planDeletions]

theorem messages_commitEmailState (fails : Nat → Option SyncError) (acc : AccountId)
    (anchor : Option FolderId) (state : Option Nat) (s : SyncRun) :
    ((commitEmailState fails acc anchor state).outcome s).2.db.messages = s.db.messages := by
  unfold commitEmailState
  split
  · apply outcome_bind_cases (P := fun t : SyncRun => t.db.messages = s.db.messages)
    · exact (sameMail_awaitCall s).messages
    · intro _ t hawait
      exact (sameMail_awaitCall.returns hawait).messages
  · rfl

end Delete

/-! ## The property and the condition -/

section Safety

variable (h : History) (sch : Schedule) (seam : Seam) (acc : AccountId) (db : Db)

/-- At whatever call the run fails, a row that is stored before the run or by it, and whose
message is in some mailbox when the run ends, is still there. -/
def DeletionSafe : Prop :=
  ∀ (fails : Nat → Option SyncError) (fuel : Nat) (id : EmailId),
    (∃ mb ∈ (h.account sch.finish).mailboxes, id ∈ (h.account sch.finish).members mb) →
      db.Stored acc id ∨ ((gather fails seam acc fuel).outcome { db := db }).2.db.Stored acc id →
        ((runJmapSync fails seam acc fuel).outcome { db := db }).2.db.Stored acc id

/-- Every stored message that a mailbox reports removed and that is on the server when the
run ends is reported added to another mailbox, listed by a full query, or reported updated
and fetched again. -/
def MovesReported : Prop :=
  ∀ id, db.Stored acc id → (h.account sch.finish).Present id →
    (∃ mb ∈ seam.mailboxes,
      RemovedFrom seam acc (prepareFolders db acc seam.mailboxes) mb.id id) →
        Refetched seam acc (prepareFolders db acc seam.mailboxes) id

end Safety

section Collected

variable {h : History} {sch : Schedule} {seam : Seam} {acc : AccountId}

/-- What the pages of `Email/changes` add to the lists so far. -/
theorem collectChanges_destroyed (hans : SeamAnswers h sch seam) {pages k since : Nat}
    {updated destroyed : List EmailId} {changes : JmapEmailChanges}
    (hc : seam.collectChanges pages k since updated destroyed = some changes) {id : EmailId}
    (hid : id ∈ changes.destroyedIds) :
    id ∈ destroyed ∨ ∃ t j, t ≤ sch.changes j ∧ ¬ (h.account t).Present id ∧
      ∃ u, u ≤ t ∧ (h.account u).Present id := by
  induction pages generalizing k since updated destroyed with
  | zero =>
    cases hc
    exact .inl hid
  | succ pages ih =>
    unfold Seam.collectChanges at hc
    cases hresp : seam.changesEmail k since with
    | none =>
      rw [hresp] at hc
      cases hc
    | some resp =>
      rw [hresp] at hc
      have hans' := hans.changes k since resp hresp
      have hpage : id ∈ destroyed ++ resp.destroyed → id ∈ destroyed ∨
          ∃ t j, t ≤ sch.changes j ∧ ¬ (h.account t).Present id ∧
            ∃ u, u ≤ t ∧ (h.account u).Present id := by
        intro hmem
        rcases List.mem_append.mp hmem with hmem | hmem
        · exact .inl hmem
        · obtain ⟨hgone, hwas⟩ := hans'.destroyed_gone id hmem
          exact .inr ⟨resp.newState, k, hans'.le_now, hgone, hwas⟩
      dsimp only at hc
      split at hc
      · rcases ih hc with hmem | hother
        · exact hpage hmem
        · exact .inr hother
      · cases hc
        exact hpage hid

theorem Schedule.changes_le_finish (sch : Schedule) (k : Nat) (mb : MailboxId) :
    sch.changes k ≤ sch.finish :=
  calc sch.changes k ≤ sch.updated 0 := sch.changes_le k 0
    _ ≤ sch.folders := sch.updated_le 0
    _ ≤ sch.delta mb := sch.folders_le mb
    _ ≤ sch.query mb 0 := sch.delta_le mb
    _ ≤ sch.get mb 0 := sch.query_le mb 0
    _ ≤ sch.finish := sch.get_le_finish mb 0

/-- What `Email/changes` reports destroyed is gone for good. -/
theorem gone_of_reportedDestroyed (hans : SeamAnswers h sch seam) {db : Db} {id : EmailId}
    (hid : ReportedDestroyed seam acc db id) : ¬ (h.account sch.finish).Present id := by
  obtain ⟨changes, hch, hmem⟩ := hid
  obtain ⟨since, -, hc⟩ := Option.bind_eq_some_iff.mp hch
  rcases collectChanges_destroyed hans hc hmem with hnil | ⟨t, k, ht, hgone, u, hut, hwas⟩
  · cases hnil
  · exact h.gone u t sch.finish id hut (Nat.le_trans ht (sch.changes_le_finish k [])) hwas hgone

/-- After the gathering, a run deletes and commits. -/
theorem outcome_runJmapSync {fails : Nat → Option SyncError} {fuel : Nat} {s t : SyncRun}
    {r : Option FolderId × Nat × Nat} (hret : Returns (gather fails seam acc fuel) s r t) :
    ((runJmapSync fails seam acc fuel).outcome s).2 =
      ((do
        let deleted ← deleteJmapMessages fails acc (planDeletions t.removed t.refetched)
        commitEmailState fails acc r.1 t.newEmailState
        return ⟨seam.mailboxes.length, r.2.1, r.2.2, deleted⟩ : SyncM SyncResponse).outcome t).2 := by
  unfold runJmapSync
  rw [outcome_bind, hret]
  rfl

/-- The planned deletions name no message that is still there. -/
theorem planned_gone (hans : SeamAnswers h sch seam) {db : Db}
    (hmoves : MovesReported h sch seam acc db) {fails : Nat → Option SyncError} {fuel : Nat}
    {t : SyncRun} {r : Option FolderId × Nat × Nat}
    (hret : Returns (gather fails seam acc fuel) { db := db } r t) {id : EmailId}
    (hpresent : (h.account sch.finish).Present id) (hstored : t.db.Stored acc id) :
    id ∉ planDeletions t.removed t.refetched := by
  obtain ⟨hgathered, -⟩ := gathered_of_returns hans rfl rfl hret
  have hkept := runKept_gather fails acc hans fuel { db := db }
  rw [hret] at hkept
  rw [mem_planDeletions, hgathered.removed, hgathered.refetched]
  rintro ⟨hremoved, hnot⟩
  rcases hremoved with hdestroyed | hmoved
  · exact gone_of_reportedDestroyed hans hdestroyed hpresent
  · rcases hkept.stored id hstored with hbefore | hrefetched
    · exact hnot (hmoves id hbefore hpresent hmoved)
    · exact hnot hrefetched

/-- A run never deletes a row whose message is still on the server when it ends, at
whatever call it fails, exactly when every removal of such a message from one mailbox is
reported elsewhere in the run. -/
theorem deletions_safe_iff (h : History) (sch : Schedule) (seam : Seam) (acc : AccountId) (db : Db)
    (hans : SeamAnswers h sch seam) :
    DeletionSafe h sch seam acc db ↔ MovesReported h sch seam acc db := by
  constructor
  · intro hsafe id hstored hpresent hmoved
    by_contra hnot
    -- the run without failures reaches the deletions with the id among them
    obtain ⟨r, t, hret⟩ := returns_gather acc hans { db := db }
    obtain ⟨hgathered, -⟩ := gathered_of_returns hans rfl rfl hret
    have hplan : id ∈ planDeletions t.removed t.refetched := by
      rw [mem_planDeletions, hgathered.removed, hgathered.refetched]
      exact ⟨.inr hmoved, hnot⟩
    have hdel : Total (deleteJmapMessages noFailure acc (planDeletions t.removed t.refetched)) :=
      total_deleteJmapMessages _
    obtain ⟨n, u, hdel⟩ := hdel t
    have hfinal := hsafe noFailure (h.size + 1) id (((h.account sch.finish).present_iff id).mp hpresent)
      (.inl hstored)
    rw [outcome_runJmapSync hret, outcome_bind, hdel] at hfinal
    dsimp only at hfinal
    have hgone : ¬ u.db.Stored acc id := by
      rw [stored_deleteJmapMessages hdel]
      exact fun hu => hu.2 hplan
    apply hgone
    rw [Db.Stored, ← messages_commitEmailState noFailure acc r.1 t.newEmailState u]
    rw [outcome_bind] at hfinal
    split at hfinal
    case h_1 e => rw [e]; exact hfinal
    case h_2 e => rw [e]; exact hfinal
  · intro hmoves fails fuel id hpresent hstored
    have hpresent' := ((h.account sch.finish).present_iff id).mpr hpresent
    have hkept := runKept_gather fails acc hans fuel { db := db }
    have hgathered : ((gather fails seam acc fuel).outcome { db := db }).2.db.Stored acc id :=
      hstored.elim (hkept.grows id) fun hid => hid
    rcases hout : (gather fails seam acc fuel).outcome { db := db } with ⟨r, t⟩
    rw [hout] at hgathered
    cases r with
    | error e =>
      unfold runJmapSync
      rw [outcome_bind, hout]
      exact hgathered
    | ok r =>
      have hspared := planned_gone hans hmoves hout hpresent' hgathered
      rw [outcome_runJmapSync hout]
      apply outcome_bind_cases (P := fun u : SyncRun => u.db.Stored acc id)
      · exact spares_deleteJmapMessages _ t id hspared hgathered
      · intro n u hdel
        have hu := (stored_deleteJmapMessages hdel id).mpr ⟨hgathered, hspared⟩
        apply outcome_bind_cases (P := fun v : SyncRun => v.db.Stored acc id)
        · rw [Db.Stored, messages_commitEmailState]
          exact hu
        · intro _ v hcommit
          have hmsg := messages_commitEmailState fails acc r.1 t.newEmailState u
          rw [hcommit] at hmsg
          show v.db.Stored acc id
          rw [Db.Stored, hmsg]
          exact hu

end Collected

/-! ## A move during the run -/

/-- A message that moves from `A` to `B` between the moments 1 and 2. -/
def moving : History where
  account := fun t =>
    { mailboxes := [['B'], ['A']]
      emails := [{ id := ['1'], mailboxIds := some [if t ≤ 1 then ['A'] else ['B']] }]
      distinct := List.nodup_singleton _
      housed := by
        intro e he
        obtain rfl := List.mem_singleton.mp he
        refine ⟨if t ≤ 1 then ['A'] else ['B'], ?_, List.mem_singleton_self _⟩
        split
        · decide
        · decide }
  gone := fun _ _ _ _ _ _ hs ht _ => ht hs
  size := 1
  bounded := fun _ => Nat.le_refl 1
  fits := by decide

/-- `B` is asked at moment `t`, everything before it is answered at moment 1, and `A` is
asked at moment 2. -/
def movingSchedule (t : Nat) (hone : 1 ≤ t) (htwo : t ≤ 2) : Schedule where
  start := 1
  mailboxes := 1
  changes := fun _ => 1
  updated := fun _ => 1
  seed := 1
  folders := 1
  delta := fun mb => if mb = ['B'] then t else 2
  query := fun _ _ => 2
  get := fun _ _ => 2
  added := fun _ _ => 2
  finish := 2
  start_le := Nat.le_refl _
  mailboxes_le := fun _ => Nat.le_refl _
  changes_le := fun _ _ => Nat.le_refl _
  updated_le := fun _ => Nat.le_refl _
  mailboxes_le_seed := Nat.le_refl _
  seed_le := Nat.le_refl _
  folders_le := fun mb => by split <;> omega
  delta_le := fun mb => by split <;> omega
  query_le := fun _ _ => Nat.le_refl _
  get_le := fun _ _ => Nat.le_refl _
  delta_le_added := fun mb _ => by split <;> omega
  get_le_finish := fun _ _ => Nat.le_refl _
  added_le_finish := fun _ _ => Nat.le_refl _

/-- The store after a first run. -/
def movingStored : Db :=
  ((runJmapSync noFailure (serve moving Schedule.still) ['a'] 2).outcome { db := Db.fresh 0 }).2.db

/-- Both mailboxes are asked after the move: the message is reported added to `B`. -/
theorem keeps_moved_message :
    DeletionSafe moving (movingSchedule 2 (by decide) (by decide))
      (serve moving (movingSchedule 2 (by decide) (by decide))) ['a'] movingStored := by
  apply (deletions_safe_iff _ _ _ _ _ (seamAnswers_serve _ _ (by decide))).mpr
  intro id _ hpresent _
  obtain rfl := List.mem_singleton.mp hpresent
  have hdelta : deltaOf (serve moving (movingSchedule 2 (by decide) (by decide))) ['a']
      (prepareFolders movingStored ['a'] [⟨['B'], ['B'], none, none⟩, ⟨['A'], ['A'], none, none⟩])
      ['B'] = some { addedIds := [['1']], removedIds := [], newQueryState := some 2 } := by
    decide +kernel
  exact .inr ⟨⟨['B'], ['B'], none, none⟩, by decide, .inl ⟨_, hdelta, by decide⟩⟩

/-- `B` is asked before the move and `A` after it: the row is deleted. -/
theorem deletes_moved_message :
    SeamAnswers moving (movingSchedule 1 (by decide) (by decide))
        (serve moving (movingSchedule 1 (by decide) (by decide))) ∧
      ¬ DeletionSafe moving (movingSchedule 1 (by decide) (by decide))
        (serve moving (movingSchedule 1 (by decide) (by decide))) ['a'] movingStored := by
  refine ⟨seamAnswers_serve _ _ (by decide), ?_⟩
  intro hsafe
  have hkept := hsafe noFailure 2 ['1'] ⟨['B'], by decide, by decide⟩ (.inl (by decide +kernel))
  revert hkept
  decide +kernel

end Lyra
