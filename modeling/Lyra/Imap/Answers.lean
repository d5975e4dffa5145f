import Mathlib.Data.List.Forall2
import Lyra.Imap.FolderPass

/-!
# A folder pass against a mailbox

`Answers mb r`: every answer in `r` that is not a failure is what the mailbox
`mb` answers, in any order.  Nothing is said about which answers fail, nor
about which transactions commit.

For such a pass the batches to persist are known in advance
(`Mailbox.plannedBatches`), and a run persists a first part of them:

* `folderPass_run`: the database and the log of a pass;
* `folderPass_commit`: what one of its commits says;
* `Mailbox.replies`: the answers of an undisturbed pass.
-/

namespace Lyra

open Lyra.Lib

/-! ## Answers -/

structure Answers (mb : Mailbox) (r : FolderReplies) : Prop where
  condstore : r.condstore = mb.condstore
  select : ∀ s, r.select = .ok s → s = ⟨mb.uidValidity, mb.highestModseq⟩
  repair : ∀ us ms, r.repair us = .ok ms → ms.Perm (mb.fetch us)
  listing : ∀ l, r.listing = .ok l → l.Perm mb.uids
  search : ∀ after l, r.search after = .ok l →
    searchQuery after ≠ 0 ∧ l.Perm (mb.searchFrom (searchQuery after))
  changed : ∀ s ms, r.changed s = .ok ms → ms.Perm (mb.changedSince s)
  fetch : ∀ k us ms, r.fetch k us = .ok ms → ms.Perm (mb.fetch us)
  /-- `fetch_metadata` of one chunk fails with a protocol error or a timeout. -/
  fetchError : ∀ k us e, r.fetch k us = .error e → e = .imap ∨ e = .timeout

/-- The hash set of the UID search is enumerated as `order`. -/
def Enumerates (r : FolderReplies) (after : Option Uid) (order : List Uid) : Prop :=
  ∀ l, r.search after = .ok l → l = order

namespace Mailbox

/-- The plan of a pass that finds `cursor` stored. -/
def plan (mb : Mailbox) (cursor : Option SyncCursorInfo) : PassPlan :=
  passPlan cursor ⟨mb.uidValidity, mb.highestModseq⟩ mb.condstore

/-- The CHANGEDSINCE batch. -/
def changedBatch (mb : Mailbox) (p : PassPlan) : List ImapMessage :=
  if mb.condstore && decide (0 < p.storedModseq) then mb.changedSince p.storedModseq else []

/-- The UIDs to fetch in chunks when the search lists `order`. -/
def newUids (mb : Mailbox) (p : PassPlan) (order : List Uid) : List Uid :=
  fetchUids order (mb.changedBatch p)

/-- The batch of the final save, where there is one. -/
def finalBatch (mb : Mailbox) (p : PassPlan) (order : List Uid) : List (List ImapMessage) :=
  if mb.changedBatch p ≠ [] then [mb.changedBatch p]
  else if p.uidvalidityChanged ∧ mb.newUids p order = [] then []
  else if p.storedModseq < p.newModseq then [[]] else []

/-- The batches of a pass that meets no failure, a reset of an empty mailbox apart. -/
def plannedBatches (mb : Mailbox) (p : PassPlan) (order : List Uid) : List (List ImapMessage) :=
  (chunks metadataChunk (mb.newUids p order)).map mb.fetch ++ mb.finalBatch p order

theorem mem_newUids {mb : Mailbox} {p : PassPlan} {order : List Uid} {u : Uid} :
    u ∈ mb.newUids p order ↔ u ∈ order ∧ u ∉ (mb.changedBatch p).map ImapMessage.uid := by
  simp only [newUids, fetchUids, List.mem_filter, Bool.not_eq_true', List.contains_eq_mem,
    decide_eq_false_iff_not]

theorem changedBatch_of_changed (mb : Mailbox) (p : PassPlan) (h : p.storedModseq = 0) :
    mb.changedBatch p = [] := by
  simp [changedBatch, h]

theorem plan_storedModseq_of_changed {mb : Mailbox} {cursor : Option SyncCursorInfo}
    (h : (mb.plan cursor).uidvalidityChanged = true) : (mb.plan cursor).storedModseq = 0 := by
  simp only [plan, passPlan] at h ⊢
  rw [h]
  rfl

end Mailbox

/-! ## Permuted batches -/

theorem maxUid_perm {ms ns : List ImapMessage} (h : ms.Perm ns) : maxUid ms = maxUid ns :=
  (h.map ImapMessage.uid).foldr_eq' (fun x _ y _ z => Nat.max_left_comm y x z) 0

theorem flatten_perm {bs cs : List (List ImapMessage)} (h : List.Forall₂ List.Perm bs cs) :
    bs.flatten.Perm cs.flatten := by
  induction h with
  | nil => exact List.Perm.nil
  | cons hb _ ih => exact hb.append ih

/-- A place in a list of permuted batches is a place in the other. -/
theorem place_of_forall₂ {bs cs : List (List ImapMessage)} {pre post : List (List ImapMessage)}
    {b : List ImapMessage} (h : List.Forall₂ List.Perm bs cs) (hb : bs = pre ++ b :: post) :
    ∃ pre' b' post', cs = pre' ++ b' :: post' ∧ List.Forall₂ List.Perm pre pre' ∧ b.Perm b' := by
  subst hb
  induction pre generalizing cs with
  | nil =>
    obtain ⟨b', post', hb, _, rfl⟩ := List.forall₂_cons_left_iff.mp h
    exact ⟨[], b', post', rfl, List.Forall₂.nil, hb⟩
  | cons a pre ih =>
    obtain ⟨a', tail, ha, htail, rfl⟩ := List.forall₂_cons_left_iff.mp h
    obtain ⟨pre', b', post', rfl, hpre, hb⟩ := ih htail
    exact ⟨a' :: pre', b', post', rfl, List.Forall₂.cons ha hpre, hb⟩

theorem persist_eq_commit (acc : AccountId) (f : FolderId) (p : PassPlan) (s : ChunkState)
    (ms : List ImapMessage) (clear : Bool) (h : (p.uidvalidityChanged && !s.cleared) = clear) :
    (s.persist acc f p ms).pass =
      s.pass.commit acc f ms ⟨p.uidValidity, max s.chunkCursor (maxUid ms), p.newModseq⟩ clear := by
  subst h; rfl

/-! ## The chunk loop -/

variable {mb : Mailbox} {r : FolderReplies} (acc : AccountId) (f : FolderId)

/-- The chunk loop persists the answers it received before the first failure. -/
theorem chunkLoop_eq (hr : Answers mb r) (p : PassPlan) (cs : List (List Uid))
    (hcs : ∀ c ∈ cs, ∃ u ∈ c, u ∈ mb.uids) (k : Nat) (s : ChunkState) :
    ∃ bs fetched rest, cs.map mb.fetch = fetched ++ rest ∧ List.Forall₂ List.Perm bs fetched ∧
      (chunkLoop acc f r p k cs s).1 = persistAll acc f p s bs ∧
      ((chunkLoop acc f r p k cs s).2 = none → rest = []) ∧
      (chunkLoop acc f r p k cs s).2 ≠ some .done := by
  induction cs generalizing k s with
  | nil => exact ⟨[], [], [], rfl, List.Forall₂.nil, rfl, fun _ => rfl, by simp [chunkLoop]⟩
  | cons c cs ih =>
    -- A run that ends here has persisted nothing of what is left.
    have stop : ∀ e, e ≠ FolderExit.done → chunkLoop acc f r p k (c :: cs) s = (s, some e) →
        ∃ bs fetched rest, (c :: cs).map mb.fetch = fetched ++ rest ∧
          List.Forall₂ List.Perm bs fetched ∧
          (chunkLoop acc f r p k (c :: cs) s).1 = persistAll acc f p s bs ∧
          ((chunkLoop acc f r p k (c :: cs) s).2 = none → rest = []) ∧
          (chunkLoop acc f r p k (c :: cs) s).2 ≠ some .done := by
      intro e he h
      refine ⟨[], [], (c :: cs).map mb.fetch, rfl, List.Forall₂.nil, ?_, ?_, ?_⟩
      · rw [h]; rfl
      · rw [h]; intro h'; cases h'
      · rw [h]; intro h'; exact he (Option.some.inj h')
    have hrest : ∀ c' ∈ cs, ∃ u ∈ c', u ∈ mb.uids := fun c' h => hcs c' (List.mem_cons_of_mem _ h)
    cases hf : r.fetch k c with
    | error e =>
      rcases hr.fetchError k c e hf with rfl | rfl
      · exact stop (.poisoned .imap) (by decide) (by simp [chunkLoop, hf, sessionMayBePoisoned])
      · exact stop (.poisoned .timeout) (by decide) (by simp [chunkLoop, hf, sessionMayBePoisoned])
    | ok ms =>
      have hperm := hr.fetch k c ms hf
      cases ms with
      | nil =>
        -- The chunk names an existing message, so the answer is not empty.
        obtain ⟨u, huc, hu⟩ := hcs c List.mem_cons_self
        have hmem := Mailbox.mem_uids_fetch.mpr ⟨huc, hu⟩
        rw [hperm.symm.eq_nil] at hmem
        cases hmem
      | cons m ms =>
        by_cases htx : r.persistTx k = true
        · obtain ⟨bs, fetched, rest, hsplit, hbs, heq, hnone, hdone⟩ :=
            ih hrest (k + 1) (s.persist acc f p (m :: ms))
          have hstep : chunkLoop acc f r p k (c :: cs) s =
              chunkLoop acc f r p (k + 1) cs (s.persist acc f p (m :: ms)) := by
            simp [chunkLoop, hf, htx]
          refine ⟨(m :: ms) :: bs, mb.fetch c :: fetched, rest, ?_, ?_, ?_, ?_, ?_⟩
          · rw [List.map_cons, hsplit, List.cons_append]
          · exact List.Forall₂.cons hperm hbs
          · rw [hstep, heq, persistAll_cons]
          · rw [hstep]; exact hnone
          · rw [hstep]; exact hdone
        · exact stop (.failed .database) (by decide) (by simp [chunkLoop, hf, htx])

/-! ## The final save -/

/-- Under a new UIDVALIDITY and with nothing to fetch, the final save resets the folder. -/
theorem finishFolder_reset (cursor : Option SyncCursorInfo) (order : List Uid)
    (messages : List ImapMessage) (s : ChunkState)
    (hm : messages.Perm (mb.changedBatch (mb.plan cursor)))
    (hs : s.cleared = true ↔ mb.newUids (mb.plan cursor) order ≠ [])
    (hreset : (mb.plan cursor).uidvalidityChanged = true ∧ mb.newUids (mb.plan cursor) order = []) :
    let p := mb.plan cursor
    finishFolder acc f r p messages s =
      if r.finalTx then (.done, s.pass.commit acc f [] ⟨p.uidValidity, 0, p.newModseq⟩ true)
      else (.failed .database, s.pass) := by
  intro p
  obtain ⟨hv, hnew⟩ := hreset
  have hnil : messages = [] := by
    rw [mb.changedBatch_of_changed _ (Mailbox.plan_storedModseq_of_changed hv)] at hm
    exact hm.eq_nil
  have hc : s.cleared = false := by
    cases h : s.cleared with
    | false => rfl
    | true => exact absurd hnew (hs.mp h)
  simp [finishFolder, hnil, p, hv, hc]

/-- Otherwise it persists the final batch, if there is one and it commits. -/
theorem finishFolder_batch (cursor : Option SyncCursorInfo) (order : List Uid)
    (messages : List ImapMessage) (s : ChunkState)
    (hm : messages.Perm (mb.changedBatch (mb.plan cursor)))
    (hs : s.cleared = true ↔ mb.newUids (mb.plan cursor) order ≠ [])
    (hreset : ¬ ((mb.plan cursor).uidvalidityChanged = true ∧
      mb.newUids (mb.plan cursor) order = [])) :
    let p := mb.plan cursor
    let out := finishFolder acc f r p messages s
    ∃ bs, List.Forall₂ List.Perm bs (if r.finalTx then mb.finalBatch p order else []) ∧
      out.2 = (persistAll acc f p s bs).pass ∧
      (out.1 = .done ↔ r.finalTx = true ∨ mb.finalBatch p order = []) := by
  intro p out
  by_cases hnil : messages = []
  · have hchanged : mb.changedBatch p = [] := by
      subst hnil; exact hm.symm.eq_nil
    have hclear : (p.uidvalidityChanged && !s.cleared) = false := by
      by_cases hv : p.uidvalidityChanged = true
      · have hc : s.cleared = true := hs.mpr fun h => hreset ⟨hv, h⟩
        simp [hc]
      · simp [Bool.eq_false_iff.mpr hv]
    by_cases hms : p.storedModseq < p.newModseq
    · have hfin : mb.finalBatch p order = [[]] := by
        rw [Mailbox.finalBatch, if_neg (by simpa using hchanged), if_neg hreset, if_pos hms]
      by_cases htx : r.finalTx = true
      · refine ⟨[[]], ?_, ?_, ?_⟩
        · rw [if_pos htx, hfin]
          exact List.Forall₂.cons (List.Perm.refl _) List.Forall₂.nil
        · rw [persistAll_cons, persistAll_nil, persist_eq_commit acc f p s [] false hclear]
          simp [out, finishFolder, hnil, hclear, hms, htx, maxUid]
        · simp [out, finishFolder, hnil, hclear, hms, htx]
      · refine ⟨[], ?_, ?_, ?_⟩
        · rw [if_neg htx]; exact List.Forall₂.nil
        · simp [out, finishFolder, hnil, hclear, hms, htx]
        · simp [out, finishFolder, hnil, hclear, hms, htx, hfin]
    · have hfin : mb.finalBatch p order = [] := by
        rw [Mailbox.finalBatch, if_neg (by simpa using hchanged), if_neg hreset, if_neg hms]
      refine ⟨[], ?_, ?_, ?_⟩
      · rw [hfin, ite_self]; exact List.Forall₂.nil
      · simp [out, finishFolder, hnil, hclear, hms]
      · simp [out, finishFolder, hnil, hclear, hms, hfin]
  · have hne : mb.changedBatch p ≠ [] := by
      intro h; rw [h] at hm; exact hnil hm.eq_nil
    -- A CHANGEDSINCE answer needs a stored mod-sequence, so UIDVALIDITY is unchanged.
    have hsame : p.uidvalidityChanged = false := by
      cases h : p.uidvalidityChanged with
      | false => rfl
      | true =>
        exact absurd (mb.changedBatch_of_changed p (Mailbox.plan_storedModseq_of_changed h)) hne
    have hfin : mb.finalBatch p order = [mb.changedBatch p] := by
      rw [Mailbox.finalBatch, if_pos hne]
    by_cases htx : r.finalTx = true
    · refine ⟨[messages], ?_, ?_, ?_⟩
      · rw [if_pos htx, hfin]; exact List.Forall₂.cons hm List.Forall₂.nil
      · rw [persistAll_cons, persistAll_nil,
          persist_eq_commit acc f p s messages false (by rw [hsame]; rfl), Nat.max_comm]
        simp [out, finishFolder, hnil, htx, hsame]
      · simp [out, finishFolder, hnil, htx]
    · refine ⟨[], ?_, ?_, ?_⟩
      · rw [if_neg htx]; exact List.Forall₂.nil
      · simp [out, finishFolder, hnil, htx]
      · simp [out, finishFolder, hnil, htx, hfin]

/-! ## The whole pass -/

/-- Where the chunk loop starts. -/
def passStart (db : Db) (acc : AccountId) (f : FolderId) (r : FolderReplies) (p : PassPlan) :
    ChunkState := ⟨passPrelude db acc f r, p.chunkCursor, false⟩

/-- The batches persisted by a run are a first part of the plan, all of it when
the pass reaches its end. -/
structure Persisted (mb : Mailbox) (p : PassPlan) (order : List Uid) (complete : Prop)
    (bs : List (List ImapMessage)) where
  fetched : List (List ImapMessage)
  rest : List (List ImapMessage)
  planned : mb.plannedBatches p order = fetched ++ rest
  perm : List.Forall₂ List.Perm bs fetched
  all : complete → rest = []
  reset : complete → ¬ (p.uidvalidityChanged = true ∧ mb.newUids p order = [])

theorem failedCommand_ne_done (e : ImapError) : failedCommand e ≠ .done := by
  unfold failedCommand
  split <;> simp

theorem chunks_eq_nil_iff {us : List Uid} : chunks metadataChunk us = [] ↔ us = [] := by
  constructor
  · intro h
    rw [← flatten_chunks metadataChunk (by decide) us, h]
    rfl
  · rintro rfl
    rfl

theorem changedMessages_perm (hr : Answers mb r) {p : PassPlan} {messages : List ImapMessage}
    (h : changedMessages r p = .ok messages) : messages.Perm (mb.changedBatch p) := by
  unfold changedMessages at h
  unfold Mailbox.changedBatch
  rw [hr.condstore] at h
  split at h
  · rename_i hc; rw [if_pos hc]; exact hr.changed _ _ h
  · rename_i hc; rw [if_neg hc]; cases h; exact List.Perm.refl _

theorem fetchUids_perm {p : PassPlan} {messages : List ImapMessage} (order : List Uid)
    (h : messages.Perm (mb.changedBatch p)) : fetchUids order messages = mb.newUids p order := by
  unfold Mailbox.newUids fetchUids
  apply List.filter_congr
  intro u _
  have hu : u ∈ messages.map ImapMessage.uid ↔ u ∈ (mb.changedBatch p).map ImapMessage.uid :=
    (h.map _).mem_iff
  simp only [List.contains_eq_mem, hu]

theorem mem_uids_of_search (hr : Answers mb r) {after : Option Uid} {l : List Uid}
    (h : r.search after = .ok l) : ∀ u ∈ l, u ∈ mb.uids := fun _ hu =>
  Mailbox.mem_uids_of_mem_searchFrom ((hr.search _ _ h).2.mem_iff.mp hu)

theorem chunk_names_message {p : PassPlan} {order : List Uid} (h : ∀ u ∈ order, u ∈ mb.uids) :
    ∀ c ∈ chunks metadataChunk (mb.newUids p order), ∃ u ∈ c, u ∈ mb.uids := by
  intro c hc
  obtain ⟨u, hu⟩ := List.exists_mem_of_ne_nil c (ne_nil_of_mem_chunks _ (by decide) _ c hc)
  have hnew := mem_of_mem_chunks _ (by decide) _ hc hu
  exact ⟨u, hu, h u (Mailbox.mem_newUids.mp hnew).1⟩

/-- After all chunks, `uidvalidity_cleared` says whether there was one. -/
theorem persistAll_chunks_cleared {p : PassPlan} {us : List Uid} {bs : List (List ImapMessage)}
    (s : PassState) (cur : Uid)
    (h : List.Forall₂ List.Perm bs ((chunks metadataChunk us).map mb.fetch)) :
    (persistAll acc f p ⟨s, cur, false⟩ bs).cleared = true ↔ us ≠ [] := by
  rw [← not_iff_not, not_not, ← chunks_eq_nil_iff]
  cases bs with
  | nil =>
    have : chunks metadataChunk us = [] := List.map_eq_nil_iff.mp (List.forall₂_nil_left_iff.mp h)
    simp [this]
  | cons b bs =>
    obtain ⟨_, _, _, _, hcons⟩ := List.forall₂_cons_left_iff.mp h
    have : chunks metadataChunk us ≠ [] := by
      intro h'; rw [h'] at hcons; cases hcons
    rw [persistAll_cleared acc f p _ _ (List.cons_ne_nil _ _)]
    simp [this]

/-- The part of a pass after the cursor is loaded. -/
theorem syncMessages_run (hr : Answers mb r) (cursor : Option SyncCursorInfo) {order : List Uid}
    (ho : Enumerates r (mb.plan cursor).afterUid order) (s : PassState) :
    let p := mb.plan cursor
    let out := syncMessages acc f r p s
    (∃ bs, Nonempty (Persisted mb p order (out.1 = .done) bs) ∧
      out.2 = (persistAll acc f p ⟨s, p.chunkCursor, false⟩ bs).pass) ∨
    (p.uidvalidityChanged = true ∧ mb.newUids p order = [] ∧ out.1 = .done ∧
      out.2 = s.commit acc f [] ⟨p.uidValidity, 0, p.newModseq⟩ true) := by
  intro p out
  have nothing : ∀ e, out = (failedCommand e, s) → ∃ bs,
      Nonempty (Persisted mb p order (out.1 = .done) bs) ∧
      out.2 = (persistAll acc f p ⟨s, p.chunkCursor, false⟩ bs).pass := by
    intro e h
    have hnot : ¬ out.1 = .done := by rw [h]; exact failedCommand_ne_done e
    exact ⟨[], ⟨⟨[], mb.plannedBatches p order, rfl, List.Forall₂.nil, fun hd => absurd hd hnot,
      fun hd => absurd hd hnot⟩⟩, by rw [h]; rfl⟩
  cases hsearch : r.search p.afterUid with
  | error e => exact .inl (nothing e (by simp only [out, syncMessages, hsearch]))
  | ok l =>
    obtain rfl := ho l hsearch
    cases hch : changedMessages r p with
    | error e => exact .inl (nothing e (by simp only [out, syncMessages, hsearch, hch]))
    | ok messages =>
      have hm := changedMessages_perm hr hch
      have hfetch := fetchUids_perm l hm
      obtain ⟨bs, fetched, rest, hplan, hperm, heq, hnone, hdone⟩ :=
        chunkLoop_eq acc f hr p (chunks metadataChunk (mb.newUids p l))
          (chunk_names_message (mem_uids_of_search hr hsearch)) 0 ⟨s, p.chunkCursor, false⟩
      cases hloop : chunkLoop acc f r p 0 (chunks metadataChunk (mb.newUids p l))
          ⟨s, p.chunkCursor, false⟩ with
      | mk s' exit =>
        rw [hloop] at heq hnone hdone
        simp only at heq hnone hdone
        cases exit with
        | some e =>
          have hout : out = (e, s'.pass) := by
            simp only [out, syncMessages, hsearch, hch, hfetch, hloop]
          have hnot : ¬ out.1 = .done := by
            rw [hout]; intro h; exact absurd (congrArg some h) hdone
          refine .inl ⟨bs, ⟨⟨fetched, rest ++ mb.finalBatch p l, ?_, hperm,
            fun hd => absurd hd hnot, fun hd => absurd hd hnot⟩⟩, ?_⟩
          · rw [Mailbox.plannedBatches, hplan, List.append_assoc]
          · rw [hout, heq]
        | none =>
          have hout : out = finishFolder acc f r p messages s' := by
            simp only [out, syncMessages, hsearch, hch, hfetch, hloop]
          obtain rfl := hnone rfl
          rw [List.append_nil] at hplan
          have hcleared := persistAll_chunks_cleared acc f (p := p) s p.chunkCursor (hplan ▸ hperm)
          rw [← heq] at hcleared
          by_cases hreset : p.uidvalidityChanged = true ∧ mb.newUids p l = []
          · have hfin := finishFolder_reset acc f (r := r) cursor l messages s' hm hcleared hreset
            have hbs : bs = [] := by
              rw [hreset.2] at hplan
              rw [show fetched = [] from hplan.symm] at hperm
              exact List.forall₂_nil_right_iff.mp hperm
            subst hbs
            rw [persistAll_nil] at heq
            by_cases htx : r.finalTx = true
            · simp only [htx, ↓reduceIte] at hfin
              refine .inr ⟨hreset.1, hreset.2, by rw [hout, hfin], ?_⟩
              rw [hout, hfin, heq]
            · simp only [htx, ↓reduceIte, Bool.false_eq_true] at hfin
              have hnot : ¬ out.1 = .done := by rw [hout, hfin]; intro h; cases h
              refine .inl ⟨[], ⟨⟨[], mb.plannedBatches p l, rfl, List.Forall₂.nil,
                fun hd => absurd hd hnot, fun hd => absurd hd hnot⟩⟩, ?_⟩
              rw [hout, hfin, heq]; rfl
          · obtain ⟨bs', hperm', hpass, hdone'⟩ :=
              finishFolder_batch acc f (r := r) cursor l messages s' hm hcleared hreset
            refine .inl ⟨bs ++ bs', ⟨⟨fetched ++ (if r.finalTx then mb.finalBatch p l else []),
              if r.finalTx then [] else mb.finalBatch p l, ?_, ?_, ?_, fun _ => hreset⟩⟩, ?_⟩
            · rw [Mailbox.plannedBatches, hplan, List.append_assoc]
              split <;> simp
            · exact List.rel_append hperm hperm'
            · rw [hout, hdone']
              rintro (h | h)
              · rw [if_pos h]
              · rw [h, ite_self]
            · rw [hout, hpass, persistAll_append, heq]

/-- A pass does nothing, or persists a first part of its plan, or resets an
empty mailbox. -/
theorem folderPass_run (hr : Answers mb r) (db : Db) {order : List Uid}
    (ho : Enumerates r (mb.plan (loadCursor db acc f)).afterUid order) :
    let p := mb.plan (loadCursor db acc f)
    let out := folderPass db acc f r
    (out.1 ≠ .done ∧ out.2 = ⟨db, [], 0, 0, 0⟩) ∨
    (∃ bs, Nonempty (Persisted mb p order (out.1 = .done) bs) ∧
      out.2 = (persistAll acc f p (passStart db acc f r p) bs).pass) ∨
    (p.uidvalidityChanged = true ∧ mb.newUids p order = [] ∧ out.1 = .done ∧
      out.2 = (passPrelude db acc f r).commit acc f [] ⟨p.uidValidity, 0, p.newModseq⟩ true) := by
  intro p out
  cases hsel : r.select with
  | error e =>
    have hout : out = (failedCommand e, ⟨db, [], 0, 0, 0⟩) := by simp only [out, folderPass, hsel]
    exact .inl ⟨by rw [hout]; exact failedCommand_ne_done e, by rw [hout]⟩
  | ok sel =>
    obtain rfl := hr.select _ hsel
    by_cases hload : r.loadTx = true
    · have hout : out = syncMessages acc f r p (passPrelude db acc f r) := by
        simp only [out, folderPass, hsel, hload, ↓reduceIte, loadCursor_passPrelude, hr.condstore]
        rfl
      right
      rw [hout]
      exact syncMessages_run acc f hr (loadCursor db acc f) ho (passPrelude db acc f r)
    · have hout : out = (.failed .database, passPrelude db acc f r) := by
        simp only [out, folderPass, hsel, hload, ↓reduceIte, Bool.false_eq_true]
      have hnot : ¬ out.1 = .done := by rw [hout]; intro h; cases h
      refine .inr (.inl ⟨[], ⟨⟨[], mb.plannedBatches p order, rfl, List.Forall₂.nil,
        fun hd => absurd hd hnot, fun hd => absurd hd hnot⟩⟩, ?_⟩)
      rw [hout]; rfl

/-- What a commit of a pass says: it is the plan cut after some batch, or a reset. -/
theorem folderPass_commit (hr : Answers mb r) (db : Db) {order : List Uid}
    (ho : Enumerates r (mb.plan (loadCursor db acc f)).afterUid order) {c : Commit}
    (hc : c ∈ (folderPass db acc f r).2.log) :
    let p := mb.plan (loadCursor db acc f)
    (∃ pre b pre' b' post', mb.plannedBatches p order = pre' ++ b' :: post' ∧
      List.Forall₂ List.Perm pre pre' ∧ b.Perm b' ∧ c.messages = b ∧
      c.cursor = ⟨p.uidValidity, max p.chunkCursor (maxUid (pre' ++ [b']).flatten), p.newModseq⟩ ∧
      c.db = (persistAll acc f p (passStart db acc f r p) (pre ++ [b])).pass.db) ∨
    (p.uidvalidityChanged = true ∧ mb.newUids p order = [] ∧ c.messages = [] ∧
      c.cursor = ⟨p.uidValidity, 0, p.newModseq⟩) := by
  intro p
  rcases folderPass_run acc f hr db ho with ⟨_, h⟩ | ⟨bs, ⟨hbs⟩, h⟩ | ⟨hv, hnew, _, h⟩
  · rw [h] at hc; cases hc
  · rw [h, mem_persistAll_log] at hc
    rcases hc with hc | ⟨b, pre, post, hsplit, hm, hcur, _, hdb⟩
    · simp [passStart] at hc
    · obtain ⟨pre', b', post', hf, hpre, hb⟩ := place_of_forall₂ hbs.perm hsplit
      refine .inl ⟨pre, b, pre', b', post' ++ hbs.rest, ?_, hpre, hb, hm, ?_, hdb⟩
      · rw [hbs.planned, hf, List.append_assoc]; rfl
      · rw [hcur, maxUid_perm (flatten_perm (List.rel_append hpre
          (List.Forall₂.cons hb List.Forall₂.nil)))]
        rfl
  · rw [h] at hc
    have hlog : ((passPrelude db acc f r).commit acc f [] ⟨p.uidValidity, 0, p.newModseq⟩ true).log =
        (passPrelude db acc f r).log ++ [⟨[], ⟨p.uidValidity, 0, p.newModseq⟩, true,
          (persistImapFolderBatch (passPrelude db acc f r).db acc f []
            ⟨p.uidValidity, 0, p.newModseq⟩ true).2⟩] := rfl
    rw [hlog, passPrelude_log, List.nil_append, List.mem_singleton] at hc
    subst hc
    exact .inr ⟨hv, hnew, rfl, rfl⟩

/-! ## The plan's UIDs -/

theorem Mailbox.fetch_uids_perm (mb : Mailbox) {us : List Uid} (h : us.Nodup)
    (hmem : ∀ u ∈ us, u ∈ mb.uids) :
    ((mb.fetch us).map ImapMessage.uid).Perm us := by
  have hnodup : ((mb.fetch us).map ImapMessage.uid).Nodup := by
    rw [Mailbox.fetch, List.map_map]
    exact mb.nodup_uids.sublist (List.filter_sublist.map ServerMessage.uid)
  rw [List.perm_ext_iff_of_nodup hnodup h]
  intro u
  rw [Mailbox.mem_uids_fetch]
  exact ⟨fun hu => hu.1, fun hu => ⟨hu, hmem u hu⟩⟩

theorem Mailbox.chunks_uids_perm (mb : Mailbox) {us : List Uid} (h : us.Nodup)
    (hmem : ∀ u ∈ us, u ∈ mb.uids) :
    (((chunks metadataChunk us).map mb.fetch).flatten.map ImapMessage.uid).Perm us := by
  induction us using drop_induction metadataChunk (by decide) with
  | nil => exact List.Perm.refl _
  | drop us hne ih =>
    rw [chunks_eq_cons _ (by decide) us hne, List.map_cons, List.flatten_cons, List.map_append]
    have htake := mb.fetch_uids_perm (h.sublist (List.take_sublist metadataChunk us))
      fun u hu => hmem u (List.mem_of_mem_take hu)
    have hdrop := ih (h.sublist (List.drop_sublist _ _)) fun u hu => hmem u (List.mem_of_mem_drop hu)
    have := htake.append hdrop
    rwa [List.take_append_drop] at this

theorem Mailbox.finalBatch_uids (p : PassPlan) (order : List Uid) :
    (mb.finalBatch p order).flatten = mb.changedBatch p := by
  unfold Mailbox.finalBatch
  split
  · simp
  · rename_i h
    rw [not_not.mp h]
    split
    · rfl
    · split <;> rfl

/-- The planned batches carry each UID once: the listed ones and the changed ones. -/
theorem Mailbox.nodup_plannedBatches (p : PassPlan) {order : List Uid} (h : order.Nodup)
    (hmem : ∀ u ∈ order, u ∈ mb.uids) :
    ((mb.plannedBatches p order).flatten.map ImapMessage.uid).Nodup := by
  have hsub : ∀ u ∈ mb.newUids p order, u ∈ mb.uids := fun u hu =>
    hmem u (Mailbox.mem_newUids.mp hu).1
  have hnew : (mb.newUids p order).Nodup := h.sublist List.filter_sublist
  have hchanged : ((mb.changedBatch p).map ImapMessage.uid).Nodup := by
    unfold Mailbox.changedBatch
    split
    · rw [Mailbox.changedSince, List.map_map]
      exact mb.nodup_uids.sublist (List.filter_sublist.map ServerMessage.uid)
    · exact List.nodup_nil
  rw [Mailbox.plannedBatches, List.flatten_append, List.map_append, Mailbox.finalBatch_uids]
  refine List.Nodup.append ((mb.chunks_uids_perm hnew hsub).nodup_iff.mpr hnew) hchanged ?_
  intro u hu hu'
  have hu := (mb.chunks_uids_perm hnew hsub).mem_iff.mp hu
  exact (Mailbox.mem_newUids.mp hu).2 hu'

theorem Mailbox.mem_plannedBatches (p : PassPlan) {order : List Uid} (h : order.Nodup)
    (hmem : ∀ u ∈ order, u ∈ mb.uids) {u : Uid} (hu : u ∈ order) :
    u ∈ (mb.plannedBatches p order).flatten.map ImapMessage.uid := by
  have hsub : ∀ u ∈ mb.newUids p order, u ∈ mb.uids := fun u hu =>
    hmem u (Mailbox.mem_newUids.mp hu).1
  have hnew : (mb.newUids p order).Nodup := h.sublist List.filter_sublist
  rw [Mailbox.plannedBatches, List.flatten_append, List.map_append, Mailbox.finalBatch_uids,
    List.mem_append]
  by_cases hc : u ∈ (mb.changedBatch p).map ImapMessage.uid
  · exact .inr hc
  · exact .inl ((mb.chunks_uids_perm hnew hsub).mem_iff.mpr (Mailbox.mem_newUids.mpr ⟨hu, hc⟩))

theorem Mailbox.mem_plannedBatches_of_changed (p : PassPlan) {order : List Uid} {u : Uid}
    (hu : u ∈ (mb.changedBatch p).map ImapMessage.uid) :
    u ∈ (mb.plannedBatches p order).flatten.map ImapMessage.uid := by
  rw [Mailbox.plannedBatches, List.flatten_append, List.map_append, Mailbox.finalBatch_uids]
  exact List.mem_append.mpr (.inr hu)

theorem Mailbox.uids_of_planned {p : PassPlan} {order : List Uid} {m : ImapMessage}
    (hm : m ∈ (mb.plannedBatches p order).flatten) : m.uid ∈ mb.uids := by
  rw [Mailbox.plannedBatches, List.flatten_append, Mailbox.finalBatch_uids] at hm
  rcases List.mem_append.mp hm with hm | hm
  · obtain ⟨b, hb, hmb⟩ := List.mem_flatten.mp hm
    obtain ⟨c, _, rfl⟩ := List.mem_map.mp hb
    exact (Mailbox.mem_uids_fetch.mp (List.mem_map_of_mem hmb)).2
  · unfold Mailbox.changedBatch at hm
    split at hm
    · obtain ⟨sm, hsm, _, rfl⟩ := Mailbox.mem_changedSince.mp hm
      exact Mailbox.mem_uids.mpr ⟨sm, hsm, rfl⟩
    · cases hm

/-- Planned UIDs are listed or changed. -/
theorem Mailbox.listed_of_planned {p : PassPlan} {order : List Uid} {u : Uid}
    (hu : u ∈ (mb.plannedBatches p order).flatten.map ImapMessage.uid) :
    u ∈ order ∨ u ∈ (mb.changedBatch p).map ImapMessage.uid := by
  rw [Mailbox.plannedBatches, List.flatten_append, List.map_append, Mailbox.finalBatch_uids] at hu
  rcases List.mem_append.mp hu with hu | hu
  · obtain ⟨m, hm, rfl⟩ := List.mem_map.mp hu
    obtain ⟨b, hb, hmb⟩ := List.mem_flatten.mp hm
    obtain ⟨c, hc, rfl⟩ := List.mem_map.mp hb
    have hmc := (Mailbox.mem_uids_fetch.mp (List.mem_map_of_mem hmb)).1
    exact .inl (Mailbox.mem_newUids.mp (mem_of_mem_chunks _ (by decide) _ hc hmc)).1
  · exact .inr hu

/-! ## Listings and cursors -/

theorem listed_nodup {order : List Uid} {q : Nat} (h : order.Perm (mb.searchFrom q)) : order.Nodup := by
  refine h.nodup_iff.mpr ?_
  unfold Mailbox.searchFrom
  split
  · exact List.nodup_nil
  · exact mb.nodup_uids.sublist (List.drop_sublist _ _)

theorem listed_mem {order : List Uid} {q : Nat} (h : order.Perm (mb.searchFrom q)) :
    ∀ u ∈ order, u ∈ mb.uids :=
  fun _ hu => Mailbox.mem_uids_of_mem_searchFrom (h.mem_iff.mp hu)

theorem query_ne_zero {order : List Uid} {q : Nat} (h : order.Perm (mb.searchFrom q)) {u : Uid}
    (hu : u ∈ order) :
    q ≠ 0 := by
  rintro rfl
  have := h.mem_iff.mp hu
  simp [Mailbox.searchFrom] at this

theorem not_reset {order : List Uid} {cursor : Option SyncCursorInfo} {u : Uid} (hu : u ∈ order) :
    ¬ ((mb.plan cursor).uidvalidityChanged = true ∧ mb.newUids (mb.plan cursor) order = []) := by
  rintro ⟨hv, hnew⟩
  have : u ∈ mb.newUids (mb.plan cursor) order := by
    rw [Mailbox.mem_newUids, mb.changedBatch_of_changed _ (Mailbox.plan_storedModseq_of_changed hv)]
    exact ⟨hu, by simp⟩
  rw [hnew] at this
  cases this

/-- A pass whose search fails commits nothing and does not reach its end. -/
theorem folderPass_of_search_error {acc : AccountId} {f : FolderId} {db : Db} (hr : Answers mb r)
    {e : ImapError} (hs : r.search (mb.plan (loadCursor db acc f)).afterUid = .error e) :
    (folderPass db acc f r).1 ≠ .done ∧ (folderPass db acc f r).2.log = [] := by
  unfold folderPass
  cases hsel : r.select with
  | error e' => exact ⟨failedCommand_ne_done e', rfl⟩
  | ok sel =>
    obtain rfl := hr.select _ hsel
    simp only [loadCursor_passPrelude, hr.condstore]
    split
    · have hs' : r.search (passPlan (loadCursor db acc f) ⟨mb.uidValidity, mb.highestModseq⟩
          mb.condstore).afterUid = .error e := hs
      rw [syncMessages, hs']
      exact ⟨failedCommand_ne_done e, passPrelude_log db acc f r⟩
    · exact ⟨by simp, passPrelude_log db acc f r⟩

theorem search_of_done {acc : AccountId} {f : FolderId} {db : Db} (hr : Answers mb r)
    (hdone : (folderPass db acc f r).1 = .done) :
    ∃ l, r.search (mb.plan (loadCursor db acc f)).afterUid = .ok l := by
  cases hs : r.search (mb.plan (loadCursor db acc f)).afterUid with
  | ok l => exact ⟨l, rfl⟩
  | error e => exact absurd hdone (folderPass_of_search_error hr hs).1

theorem query_ne_zero_of_commit {acc : AccountId} {f : FolderId} {db : Db} (hr : Answers mb r)
    {c : Commit} (hc : c ∈ (folderPass db acc f r).2.log) :
    searchQuery (mb.plan (loadCursor db acc f)).afterUid ≠ 0 := by
  cases hs : r.search (mb.plan (loadCursor db acc f)).afterUid with
  | ok l => exact (hr.search _ _ hs).1
  | error e =>
    rw [(folderPass_of_search_error hr hs).2] at hc
    cases hc

theorem loadCursor_persistAll {acc : AccountId} {f : FolderId} (p : PassPlan) (s : ChunkState)
    {bs : List (List ImapMessage)}
    (hbs : bs ≠ []) : loadCursor (persistAll acc f p s bs).pass.db acc f =
      some ⟨p.uidValidity, max s.chunkCursor (maxUid bs.flatten), p.newModseq⟩ := by
  obtain ⟨init, last, rfl⟩ := List.eq_nil_or_concat bs |>.resolve_left hbs
  rw [List.concat_eq_append, persistAll_append, persistAll_cons, persistAll_nil,
    List.flatten_append, maxUid_append, ← Nat.max_assoc, ← persistAll_chunkCursor acc f p]
  simp only [List.flatten_cons, List.flatten_nil, List.append_nil]
  exact loadCursor_persistImapFolderBatch _ acc f last _ _

theorem Mailbox.highestModseq_of_new {cursor : Option SyncCursorInfo}
    (h : 0 < (mb.plan cursor).newModseq) :
    mb.highestModseq = some (mb.plan cursor).newModseq := by
  simp only [Mailbox.plan, passPlan] at h ⊢
  split at h
  · rename_i hc
    rw [if_pos hc]
    cases hh : mb.highestModseq with
    | none => rw [hh] at h; simp at h
    | some n => rfl
  · omega

/-- The plan of a pass that resumes at a cursor of the same mailbox. -/
theorem Mailbox.plan_resumed (mb : Mailbox) (cursor : Option SyncCursorInfo) (last : Uid) :
    let p := mb.plan cursor
    let q := mb.plan (some ⟨p.uidValidity, last, p.newModseq⟩)
    q.uidvalidityChanged = false ∧ q.afterUid = some last ∧ q.storedModseq = p.newModseq ∧
      mb.changedBatch q = [] := by
  intro p q
  have hq : q.uidvalidityChanged = false := by simp [q, Mailbox.plan, passPlan, p]
  have hstored : q.storedModseq = p.newModseq := by
    have := hq
    simp only [q, Mailbox.plan, passPlan] at this ⊢
    rw [this]
    rfl
  refine ⟨hq, ?_, hstored, ?_⟩
  · have := hq
    simp only [q, Mailbox.plan, passPlan] at this ⊢
    rw [this]
    rfl
  · -- Nothing has changed since the highest mod-sequence.
    unfold Mailbox.changedBatch
    split
    · rename_i hc
      have hpos : 0 < p.newModseq := by
        rw [hstored] at hc
        simp only [Bool.and_eq_true, decide_eq_true_eq] at hc
        exact hc.2
      have hhigh : mb.highestModseq = some p.newModseq := Mailbox.highestModseq_of_new hpos
      rw [Mailbox.changedSince, List.map_eq_nil_iff, List.filter_eq_nil_iff]
      intro m hm
      have := mb.modseqBound _ hhigh m hm
      rw [hstored]
      simp only [decide_eq_true_eq]
      omega
    · rfl

/-! ## A pass cut after a number of batches -/

/-- Answers without a failure, except that the repair and the listing are
refused; the first `n` batches commit. -/
def Mailbox.replies (mb : Mailbox) (p : PassPlan) (order : List Uid) (n : Nat) : FolderReplies where
  condstore := mb.condstore
  select := .ok ⟨mb.uidValidity, mb.highestModseq⟩
  repair := fun _ => .error .imap
  repairTx := false
  listing := .error .imap
  reconcileTx := false
  loadTx := true
  search := fun after =>
    if after = p.afterUid ∧ searchQuery after ≠ 0 then .ok order else .error .imap
  changed := fun s => .ok (mb.changedSince s)
  fetch := fun _ us => .ok (mb.fetch us)
  persistTx := fun k => decide (k < n)
  finalTx := decide ((chunks metadataChunk (mb.newUids p order)).length < n)

theorem answers_replies {p : PassPlan} {order : List Uid}
    (h : order.Perm (mb.searchFrom (searchQuery p.afterUid))) (n : Nat) :
    Answers mb (mb.replies p order n) where
  condstore := rfl
  select := fun s hs => by cases hs; rfl
  repair := fun us ms hm => by cases hm
  listing := fun l hl => by cases hl
  search := by
    intro after l hl
    simp only [Mailbox.replies] at hl
    split at hl
    · rename_i hq
      obtain ⟨rfl, hq⟩ := hq
      cases hl
      exact ⟨hq, h⟩
    · cases hl
  changed := fun s ms hm => by cases hm; exact List.Perm.refl _
  fetch := fun k us ms hm => by cases hm; exact List.Perm.refl _
  fetchError := fun k us e he => by cases he

theorem enumerates_replies (p : PassPlan) (order : List Uid) (n : Nat) :
    Enumerates (mb.replies p order n) p.afterUid order := by
  intro l hl
  simp only [Mailbox.replies] at hl
  split at hl
  · cases hl; rfl
  · cases hl

theorem passPrelude_replies (db : Db) (p : PassPlan) (order : List Uid) (n : Nat) :
    passPrelude db acc f (mb.replies p order n) = ⟨db, [], 0, 0, 0⟩ := by
  simp only [passPrelude, reconcileStep, Mailbox.replies, repairFolderMojibake]
  split <;> rfl

theorem chunkLoop_replies (p q : PassPlan) (order : List Uid) (n : Nat) (cs : List (List Uid))
    (hcs : ∀ c ∈ cs, ∃ u ∈ c, u ∈ mb.uids) (k : Nat) (hkn : k ≤ n) (s : ChunkState) :
    (chunkLoop acc f (mb.replies q order n) p k cs s).1 =
        persistAll acc f p s ((cs.map mb.fetch).take (n - k)) ∧
      (k + cs.length ≤ n → (chunkLoop acc f (mb.replies q order n) p k cs s).2 = none) ∧
      (n < k + cs.length → ∃ e, (chunkLoop acc f (mb.replies q order n) p k cs s).2 =
        some (.failed e)) := by
  induction cs generalizing k s with
  | nil => exact ⟨by simp [chunkLoop], fun _ => rfl, fun h => by simp at h; omega⟩
  | cons c cs ih =>
    have hfetch : (mb.replies q order n).fetch k c = .ok (mb.fetch c) := rfl
    have hne : mb.fetch c ≠ [] := by
      obtain ⟨u, huc, hu⟩ := hcs c List.mem_cons_self
      intro h
      have hmem := Mailbox.mem_uids_fetch.mpr ⟨huc, hu⟩
      rw [h] at hmem
      cases hmem
    obtain ⟨m, ms, hms⟩ := List.exists_cons_of_ne_nil hne
    by_cases hk : k < n
    · have hstep : chunkLoop acc f (mb.replies q order n) p k (c :: cs) s =
          chunkLoop acc f (mb.replies q order n) p (k + 1) cs (s.persist acc f p (mb.fetch c)) := by
        simp only [chunkLoop, hfetch, hms]
        simp [Mailbox.replies, hk]
      obtain ⟨h1, h2, h3⟩ := ih (fun c' h => hcs c' (List.mem_cons_of_mem _ h)) (k + 1) hk
        (s.persist acc f p (mb.fetch c))
      rw [hstep, h1]
      refine ⟨?_, fun h => h2 (by simp at h; omega), fun h => h3 (by simp at h; omega)⟩
      rw [show n - k = (n - (k + 1)) + 1 by omega, List.map_cons, List.take_succ_cons,
        persistAll_cons]
    · have hstep : chunkLoop acc f (mb.replies q order n) p k (c :: cs) s =
          (s, some (.failed .database)) := by
        simp only [chunkLoop, hfetch, hms]
        simp [Mailbox.replies, hk]
      rw [hstep]
      refine ⟨?_, fun h => by simp at h; omega, fun _ => ⟨_, rfl⟩⟩
      rw [show n - k = 0 by omega]
      rfl

/-- Cut after `n` batches, a pass has persisted the first `n` of its plan. -/
theorem folderPass_replies (db : Db) {order : List Uid} (n : Nat) :
    let p := mb.plan (loadCursor db acc f)
    let out := folderPass db acc f (mb.replies p order n)
    order.Perm (mb.searchFrom (searchQuery p.afterUid)) → searchQuery p.afterUid ≠ 0 →
    ¬ (p.uidvalidityChanged = true ∧ mb.newUids p order = []) →
    (∃ bs, List.Forall₂ List.Perm bs ((mb.plannedBatches p order).take n) ∧
      out.2 = (persistAll acc f p ⟨⟨db, [], 0, 0, 0⟩, p.chunkCursor, false⟩ bs).pass) ∧
    ((mb.plannedBatches p order).length ≤ n → out.1 = .done) := by
  intro p out horder hq hreset
  have hmem : ∀ u ∈ order, u ∈ mb.uids := fun u hu =>
    Mailbox.mem_uids_of_mem_searchFrom (horder.mem_iff.mp hu)
  have hsearch : (mb.replies p order n).search p.afterUid = .ok order := by
    simp [Mailbox.replies, hq]
  have hch : changedMessages (mb.replies p order n) p = .ok (mb.changedBatch p) := by
    unfold changedMessages Mailbox.changedBatch
    rw [show (mb.replies p order n).condstore = mb.condstore from rfl]
    by_cases h : (mb.condstore && decide (0 < p.storedModseq)) = true
    · rw [if_pos h, if_pos h]; rfl
    · rw [if_neg h, if_neg h]
  have hfetch := fetchUids_perm order (List.Perm.refl (mb.changedBatch p))
  obtain ⟨hstate, hnone, hsome⟩ := chunkLoop_replies acc f p p order n
    (chunks metadataChunk (mb.newUids p order)) (chunk_names_message hmem) 0 (Nat.zero_le n)
    ⟨⟨db, [], 0, 0, 0⟩, p.chunkCursor, false⟩
  rw [Nat.sub_zero] at hstate
  rw [Nat.zero_add] at hnone hsome
  have hout : out = syncMessages acc f (mb.replies p order n) p ⟨db, [], 0, 0, 0⟩ := by
    simp only [out, folderPass, passPrelude_replies]
    rfl
  rw [syncMessages, hsearch] at hout
  simp only [hch, hfetch] at hout
  cases hloop : chunkLoop acc f (mb.replies p order n) p 0 (chunks metadataChunk (mb.newUids p order))
      ⟨⟨db, [], 0, 0, 0⟩, p.chunkCursor, false⟩ with
  | mk s' exit =>
    rw [hloop] at hout hstate hnone hsome
    simp only at hout hstate hnone hsome
    have hlen : (mb.plannedBatches p order).length =
        (chunks metadataChunk (mb.newUids p order)).length + (mb.finalBatch p order).length := by
      simp [Mailbox.plannedBatches]
    by_cases hn : n < (chunks metadataChunk (mb.newUids p order)).length
    · obtain ⟨e, rfl⟩ := hsome hn
      refine ⟨⟨((chunks metadataChunk (mb.newUids p order)).map mb.fetch).take n, ?_, ?_⟩,
        fun h => by omega⟩
      · rw [Mailbox.plannedBatches, List.take_append_of_le_length (by simp; omega)]
        exact List.forall₂_same.mpr fun _ _ => List.Perm.refl _
      · rw [hout, hstate]
    · have hn' : (chunks metadataChunk (mb.newUids p order)).length ≤ n := by omega
      obtain rfl := hnone hn'
      rw [List.take_of_length_le (by simpa using hn')] at hstate
      have hself : List.Forall₂ List.Perm ((chunks metadataChunk (mb.newUids p order)).map mb.fetch)
          ((chunks metadataChunk (mb.newUids p order)).map mb.fetch) :=
        List.forall₂_same.mpr fun _ _ => List.Perm.refl _
      have hcleared := persistAll_chunks_cleared acc f (p := p) ⟨db, [], 0, 0, 0⟩ p.chunkCursor hself
      rw [← hstate] at hcleared
      obtain ⟨bs, hbs, hpass, hdone⟩ := finishFolder_batch acc f (r := mb.replies p order n)
        (loadCursor db acc f) order (mb.changedBatch p) s' (List.Perm.refl _) hcleared hreset
      have htx : (mb.replies p order n).finalTx =
          decide ((chunks metadataChunk (mb.newUids p order)).length < n) := rfl
      have hfinal : (mb.finalBatch p order).length ≤ 1 := by
        unfold Mailbox.finalBatch
        repeat' split
        all_goals simp
      refine ⟨⟨(chunks metadataChunk (mb.newUids p order)).map mb.fetch ++ bs, ?_, ?_⟩, ?_⟩
      · rw [Mailbox.plannedBatches, List.take_append, List.take_of_length_le (by simpa using hn')]
        refine List.rel_append hself ?_
        rw [htx] at hbs
        by_cases h : (chunks metadataChunk (mb.newUids p order)).length < n
        · rw [List.take_of_length_le (by simp; omega)]
          simpa [h] using hbs
        · rw [List.length_map, show n - (chunks metadataChunk (mb.newUids p order)).length = 0 by omega]
          simpa [h] using hbs
      · rw [hout]
        simp only
        rw [hpass, hstate, persistAll_append]
      · intro h
        rw [hout]
        simp only
        rw [hdone, htx]
        by_cases hf : mb.finalBatch p order = []
        · exact .inr hf
        · have := List.length_pos_of_ne_nil hf
          exact .inl (by simp; omega)

/-- The pass cut after `n > 0` batches, and its last commit. -/
theorem cut_run {acc : AccountId} {f : FolderId} {db : Db} {order : List Uid}
    (horder : order.Perm (mb.searchFrom (searchQuery (mb.plan (loadCursor db acc f)).afterUid)))
    (hq : searchQuery (mb.plan (loadCursor db acc f)).afterUid ≠ 0)
    (hreset : ¬ ((mb.plan (loadCursor db acc f)).uidvalidityChanged = true ∧
      mb.newUids (mb.plan (loadCursor db acc f)) order = [])) {n : Nat} (hn : 0 < n)
    (hlen : n ≤ (mb.plannedBatches (mb.plan (loadCursor db acc f)) order).length) :
    let p := mb.plan (loadCursor db acc f)
    let cut := (mb.plannedBatches p order).take n
    let out := folderPass db acc f (mb.replies p order n)
    ∃ bs, bs ≠ [] ∧ List.Forall₂ List.Perm bs cut ∧
      out.2 = (persistAll acc f p ⟨⟨db, [], 0, 0, 0⟩, p.chunkCursor, false⟩ bs).pass ∧
      loadCursor out.2.db acc f =
        some ⟨p.uidValidity, max p.chunkCursor (maxUid cut.flatten), p.newModseq⟩ ∧
      ∃ c ∈ out.2.log, c.db = out.2.db ∧
        c.cursor = ⟨p.uidValidity, max p.chunkCursor (maxUid cut.flatten), p.newModseq⟩ := by
  intro p cut out
  obtain ⟨⟨bs, hbs, hrun⟩, _⟩ := folderPass_replies acc f db n horder hq hreset
  have hbslen : bs.length = n := by
    rw [hbs.length_eq, List.length_take]; omega
  have hne : bs ≠ [] := by
    intro h; rw [h] at hbslen; simp at hbslen; omega
  have hlog : out.2 = (persistAll acc f p ⟨⟨db, [], 0, 0, 0⟩, p.chunkCursor, false⟩ bs).pass := hrun
  have hmax : maxUid bs.flatten = maxUid cut.flatten := maxUid_perm (flatten_perm hbs)
  refine ⟨bs, hne, hbs, hlog, by rw [hlog, loadCursor_persistAll p _ hne, hmax], ?_⟩
  obtain ⟨init, last, rfl⟩ := List.eq_nil_or_concat bs |>.resolve_left hne
  rw [List.concat_eq_append] at hlog hmax
  refine ⟨⟨last, ⟨p.uidValidity, max p.chunkCursor (maxUid cut.flatten), p.newModseq⟩,
    p.uidvalidityChanged && !(persistAll acc f p ⟨⟨db, [], 0, 0, 0⟩, p.chunkCursor, false⟩
      init).cleared, out.2.db⟩, ?_, rfl, rfl⟩
  rw [hlog, mem_persistAll_log]
  exact .inr ⟨last, init, [], rfl, rfl, by rw [hmax], rfl, rfl⟩

end Lyra
