import Lyra.Imap.CursorSafety

/-!
# A mailbox under a new UIDVALIDITY

The pass that meets a new UIDVALIDITY searches from the start and wipes the
folder, but it seeds the running cursor with the old `last_uid`.  The pass
after it asks for sequence numbers beyond that cursor.

* `reset_sound_iff`: when the cursor committed under the new UIDVALIDITY stays
  within what was fetched and the next pass finds everything appended since;
* `reset_unsound_nine`: an old cursor of 100 over nine new messages.
-/

namespace Lyra

open Lyra.Lib

variable {mb mb' : Mailbox} {r : FolderReplies} {acc : AccountId} {f : FolderId}

/-! ## The property -/

/-- Everything a pass fetched and persisted. -/
def PassState.fetched (s : PassState) : List ImapMessage := s.log.flatMap Commit.messages

/-- At every failure point, a cursor stored under the mailbox's UIDVALIDITY is at
most the greatest UID fetched. -/
def ResetBounded (db : Db) (acc : AccountId) (f : FolderId) (mb : Mailbox) (order : List Uid) :
    Prop :=
  ∀ r, Answers mb r → Enumerates r none order →
    ∀ c, loadCursor (folderPass db acc f r).2.db acc f = some c → c.uidValidity = mb.uidValidity →
      c.lastUid ≤ maxUid (folderPass db acc f r).2.fetched

/-- At every failure point, the next pass that reaches its end finds every message
appended since. -/
def AppendedFound (db : Db) (acc : AccountId) (f : FolderId) (mb : Mailbox) (order : List Uid) :
    Prop :=
  ∀ r, Answers mb r → Enumerates r none order → ∀ mb', mb.Later mb' → ∀ r', Answers mb' r' →
    (folderPass (folderPass db acc f r).2.db acc f r').1 = .done →
    ∀ u ∈ mb'.uids, mb.uidNext ≤ u →
      u ∈ (folderPass (folderPass db acc f r).2.db acc f r').2.fetched.map ImapMessage.uid

/-- The condition: an empty mailbox, or one whose first chunk reaches the old
cursor and where mod-sequences (or the lack of room for two more UIDs) make up
for the search by sequence number. -/
def ResetReached (mb : Mailbox) (order : List Uid) (last : Uid) : Prop :=
  mb.messages = [] ∨
    ((∃ u ∈ order.take metadataChunk, last ≤ u) ∧ (mb.Tracked ∨ 2 ^ 32 < mb.uidNext + 2))

/-! ## What a pass fetched -/

theorem fetched_persistAll (p : PassPlan) (s : ChunkState) (bs : List (List ImapMessage)) :
    (persistAll acc f p s bs).pass.fetched = s.pass.fetched ++ bs.flatten := by
  induction bs generalizing s with
  | nil => simp [PassState.fetched]
  | cons b bs ih =>
    rw [persistAll_cons, ih]
    have : (s.persist acc f p b).pass.fetched = s.pass.fetched ++ b := by
      simp [PassState.fetched, ChunkState.persist, PassState.commit]
    rw [this, List.append_assoc, List.flatten_cons]

theorem fetched_passPrelude (db : Db) : (passPrelude db acc f r).fetched = [] := by
  simp [PassState.fetched]

/-- A pass that reaches its end has fetched what its search lists and what changed. -/
theorem fetched_of_done {db : Db} (hr : Answers mb r) (hdone : (folderPass db acc f r).1 = .done)
    {u : Uid} (hu : u ∈ mb.searchFrom (searchQuery (mb.plan (loadCursor db acc f)).afterUid) ∨
      u ∈ (mb.changedBatch (mb.plan (loadCursor db acc f))).map ImapMessage.uid) :
    u ∈ (folderPass db acc f r).2.fetched.map ImapMessage.uid := by
  obtain ⟨order, hs⟩ := search_of_done hr hdone
  have ho : Enumerates r (mb.plan (loadCursor db acc f)).afterUid order := by
    intro l hl; rw [hs] at hl; cases hl; rfl
  have horder := (hr.search _ _ hs).2
  have hin : u ∈ (mb.plannedBatches (mb.plan (loadCursor db acc f)) order).flatten.map
      ImapMessage.uid := by
    rcases hu with hu | hu
    · exact Mailbox.mem_plannedBatches _ (listed_nodup horder) (listed_mem horder)
        (horder.mem_iff.mpr hu)
    · exact Mailbox.mem_plannedBatches_of_changed _ hu
  rcases folderPass_run acc f hr db ho with ⟨hnd, _⟩ | ⟨bs, ⟨hbs⟩, h⟩ | ⟨hv, hnew, _, h⟩
  · exact absurd hdone hnd
  · have hplan := hbs.planned
    rw [hbs.all hdone, List.append_nil] at hplan
    rw [h, fetched_persistAll]
    refine List.mem_map.mpr ?_
    obtain ⟨m, hm, rfl⟩ := List.mem_map.mp (hplan ▸ hin)
    exact ⟨m, List.mem_append.mpr (.inr ((flatten_perm hbs.perm).mem_iff.mpr hm)), rfl⟩
  · have hch := mb.changedBatch_of_changed _ (Mailbox.plan_storedModseq_of_changed hv)
    rw [Mailbox.plannedBatches, hnew, List.flatten_append, List.map_append, Mailbox.finalBatch_uids,
      hch] at hin
    cases hin

/-- It has fetched nothing else. -/
theorem mem_planned_of_fetched {db : Db} {order : List Uid} (hr : Answers mb r)
    (ho : Enumerates r (mb.plan (loadCursor db acc f)).afterUid order) {m : ImapMessage}
    (hm : m ∈ (folderPass db acc f r).2.fetched) :
    m ∈ (mb.plannedBatches (mb.plan (loadCursor db acc f)) order).flatten := by
  rcases folderPass_run acc f hr db ho with ⟨_, h⟩ | ⟨bs, ⟨hbs⟩, h⟩ | ⟨_, _, _, h⟩
  · rw [h] at hm; cases hm
  · rw [h, fetched_persistAll] at hm
    rcases List.mem_append.mp hm with hm | hm
    · rw [show (passStart db acc f r _).pass.fetched = [] from fetched_passPrelude db] at hm
      cases hm
    · rw [hbs.planned, List.flatten_append]
      exact List.mem_append.mpr (.inl ((flatten_perm hbs.perm).mem_iff.mp hm))
  · rw [h] at hm
    have : ((passPrelude db acc f r).commit acc f [] ⟨(mb.plan (loadCursor db acc f)).uidValidity, 0,
        (mb.plan (loadCursor db acc f)).newModseq⟩ true).fetched = [] := by
      simp [PassState.fetched, PassState.commit]
    rw [this] at hm
    cases hm

/-! ## The plan of a reset -/

section Reset

variable {db : Db} {order : List Uid} {old : SyncCursorInfo}

theorem Mailbox.plan_reset (mb : Mailbox) (hv : old.uidValidity ≠ mb.uidValidity) :
    (mb.plan (some old)).uidvalidityChanged = true ∧ (mb.plan (some old)).afterUid = none ∧
      (mb.plan (some old)).chunkCursor = old.lastUid ∧
      mb.changedBatch (mb.plan (some old)) = [] := by
  have hch : (mb.plan (some old)).uidvalidityChanged = true := by
    simp [Mailbox.plan, passPlan, hv]
  refine ⟨hch, ?_, rfl, mb.changedBatch_of_changed _ (Mailbox.plan_storedModseq_of_changed hch)⟩
  simp [Mailbox.plan, passPlan, hv]

theorem Mailbox.newUids_reset (mb : Mailbox) (hv : old.uidValidity ≠ mb.uidValidity) :
    mb.newUids (mb.plan (some old)) order = order := by
  unfold Mailbox.newUids fetchUids
  rw [(mb.plan_reset hv).2.2.2]
  simp

theorem Mailbox.plannedBatches_reset (mb : Mailbox) (hv : old.uidValidity ≠ mb.uidValidity)
    (hne : order ≠ []) : ∃ rest, mb.plannedBatches (mb.plan (some old)) order =
      mb.fetch (order.take metadataChunk) :: rest := by
  rw [Mailbox.plannedBatches, mb.newUids_reset hv, chunks_eq_cons _ (by decide) _ hne]
  exact ⟨_, rfl⟩

/-- The cursor a reset leaves: the old one, one above the first chunk, or zero. -/
theorem reset_cursor_cases (hr : Answers mb r) (hold : loadCursor db acc f = some old)
    (hv : old.uidValidity ≠ mb.uidValidity) (ho : Enumerates r none order)
    (horder : order.Perm mb.uids) :
    let out := folderPass db acc f r
    loadCursor out.2.db acc f = some old ∨
    (loadCursor out.2.db acc f = some ⟨mb.uidValidity, max old.lastUid (maxUid out.2.fetched),
        (mb.plan (some old)).newModseq⟩ ∧ order ≠ [] ∧
      ∀ u ∈ order.take metadataChunk, u ∈ out.2.fetched.map ImapMessage.uid) ∨
    (loadCursor out.2.db acc f = some ⟨mb.uidValidity, 0, (mb.plan (some old)).newModseq⟩ ∧
      order = []) := by
  intro out
  have hplan := mb.plan_reset hv
  have ho' : Enumerates r (mb.plan (loadCursor db acc f)).afterUid order := by
    rw [hold, hplan.2.1]; exact ho
  rcases folderPass_run acc f hr db ho' with ⟨_, h⟩ | ⟨bs, ⟨hbs⟩, h⟩ | ⟨_, hnew, _, h⟩
  · left; rw [show out.2 = _ from h]; exact hold
  · rw [hold] at h hbs
    by_cases hnil : bs = []
    · left
      rw [show out.2 = _ from h, hnil]
      exact (loadCursor_passPrelude db acc f f r).trans hold
    · have hne : order ≠ [] := by
        rintro rfl
        have hp := hbs.planned
        rw [Mailbox.plannedBatches, mb.newUids_reset hv, Mailbox.finalBatch, if_neg
          (not_not.mpr hplan.2.2.2), if_pos ⟨hplan.1, mb.newUids_reset hv⟩] at hp
        have hf : hbs.fetched = [] := (List.append_eq_nil_iff.mp hp.symm).1
        have := hbs.perm
        rw [hf] at this
        exact hnil (List.forall₂_nil_right_iff.mp this)
      have hfetched : out.2.fetched = bs.flatten := by
        rw [show out.2 = _ from h, fetched_persistAll]
        rw [show (passStart db acc f r _).pass.fetched = [] from fetched_passPrelude db]
        rfl
      refine .inr (.inl ⟨?_, hne, ?_⟩)
      · rw [hfetched, show out.2 = _ from h, loadCursor_persistAll _ _ hnil]
        rfl
      · intro u hu
        rw [hfetched, ((flatten_perm hbs.perm).map ImapMessage.uid).mem_iff]
        obtain ⟨rest, hrest⟩ := mb.plannedBatches_reset hv hne
        have hp := hbs.planned
        rw [hrest] at hp
        cases hf : hbs.fetched with
        | nil =>
          have := hbs.perm
          rw [hf] at this
          exact absurd (List.forall₂_nil_right_iff.mp this) hnil
        | cons b fs =>
          rw [hf, List.cons_append] at hp
          obtain ⟨hb, _⟩ := List.cons.inj hp
          rw [← hb, List.flatten_cons, List.map_append, List.mem_append]
          exact .inl (Mailbox.mem_uids_fetch.mpr
            ⟨hu, horder.mem_iff.mp (List.mem_of_mem_take hu)⟩)
  · rw [hold, mb.newUids_reset hv] at hnew
    refine .inr (.inr ⟨?_, hnew⟩)
    rw [show out.2 = _ from h, hold]
    exact loadCursor_persistImapFolderBatch _ acc f [] _ true

/-! ## The condition is enough -/

theorem ResetReached.bounded (h : ResetReached mb order old.lastUid)
    (hold : loadCursor db acc f = some old) (hv : old.uidValidity ≠ mb.uidValidity)
    (horder : order.Perm mb.uids) : ResetBounded db acc f mb order := by
  intro r hr ho c hc hcv
  rcases reset_cursor_cases hr hold hv ho horder with e | ⟨e, hne, hfirst⟩ | ⟨e, _⟩
  · rw [e] at hc; cases hc; exact absurd hcv hv
  · rw [e] at hc
    cases hc
    rcases h with hempty | ⟨⟨u, hu, hle⟩, _⟩
    · have : order = [] := by
        rw [Mailbox.uids, hempty] at horder
        exact horder.eq_nil
      exact absurd this hne
    · obtain ⟨m, hm, hmu⟩ := List.mem_map.mp (hfirst u hu)
      have hmax := le_maxUid hm
      rw [hmu] at hmax
      exact Nat.max_le.mpr ⟨Nat.le_trans hle hmax, Nat.le_refl _⟩
  · rw [e] at hc; cases hc; exact Nat.zero_le _

/-- The greatest UID is the last message. -/
theorem Mailbox.isLast_of_max {u : Uid} (hu : u ∈ mb.uids) (hmax : ∀ v ∈ mb.uids, v ≤ u) :
    mb.isLast u := by
  rw [Mailbox.isLast_iff]
  refine ⟨hu, ?_⟩
  have hi : mb.uids.idxOf u < mb.uids.length := List.idxOf_lt_length_iff.mpr hu
  unfold Mailbox.seq
  by_contra hne
  have hi' : mb.uids.idxOf u + 1 < mb.uids.length := by omega
  have hlt := List.pairwise_iff_getElem.mp mb.ascending (mb.uids.idxOf u) (mb.uids.idxOf u + 1) hi hi'
    (Nat.lt_succ_self _)
  have e : (mb.messages.map ServerMessage.uid)[mb.uids.idxOf u] = u := List.getElem_idxOf hi
  rw [e] at hlt
  have := hmax _ (List.getElem_mem hi')
  exact absurd hlt (Nat.not_lt.mpr this)

/-- After the reset the stored cursor is old, or tracks mod-sequences, or lies below
the only UID left to assign, or is zero: in each case the next pass sees the rest. -/
theorem ResetReached.found (h : ResetReached mb order old.lastUid)
    (hold : loadCursor db acc f = some old) (hv : old.uidValidity ≠ mb.uidValidity)
    (horder : order.Perm mb.uids) : AppendedFound db acc f mb order := by
  intro r hr ho mb' hlater r' hr' hdone u hu hnext
  refine fetched_of_done hr' hdone ?_
  have hall : ∀ q, q = 1 → u ∈ mb'.searchFrom q := by
    rintro q rfl; rw [Mailbox.searchFrom_one]; exact hu
  rcases reset_cursor_cases hr hold hv ho horder with e | ⟨e, hne, hfirst⟩ | ⟨e, _⟩
  · left
    rw [e, (mb'.plan_reset (hlater.uidValidity ▸ hv)).2.1]
    exact hall _ rfl
  · have hbound := h.bounded hold hv horder r hr ho _ e rfl
    rcases h with hempty | ⟨_, htracked | hroom⟩
    · rw [Mailbox.uids, hempty] at horder
      exact absurd horder.eq_nil hne
    · -- The appended message has a mod-sequence above the committed one.
      right
      obtain ⟨hc, hpos⟩ := htracked
      cases hh : mb.highestModseq with
      | none => rw [hh] at hpos; simp at hpos
      | some hi =>
        rw [hh] at hpos
        have hnew : (mb.plan (some old)).newModseq = hi := by
          simp only [Mailbox.plan, passPlan, hc, hh, Option.getD_some] at hpos ⊢
          simp [hpos]
        obtain ⟨m, hm, rfl⟩ := Mailbox.mem_uids.mp hu
        have hmod : hi < m.modseq := by
          rcases hlater.fresh hi hh m hm with hin | hlt
          · exact absurd (mb.uidBounds m hin).2 (Nat.not_lt.mpr hnext)
          · exact hlt
        rw [e, hnew]
        have hst : (mb'.plan (some ⟨mb.uidValidity, max old.lastUid
            (maxUid (folderPass db acc f r).2.fetched), hi⟩)).storedModseq = hi := by
          simp [Mailbox.plan, passPlan, hlater.uidValidity]
        unfold Mailbox.changedBatch
        rw [hst, hlater.condstore, hc]
        simp only [Option.getD_some] at hpos
        simp only [hpos, decide_true, Bool.and_self, ↓reduceIte]
        exact Mailbox.mem_uids_changedSince.mpr ⟨m, hm, hmod, rfl⟩
    · -- Only one UID was left, so the appended message is the last one.
      left
      have hlt := Mailbox.uid_lt hu
      have hlast : mb'.isLast u := by
        refine Mailbox.isLast_of_max hu fun v hv' => ?_
        have := Mailbox.uid_lt hv'
        exact Nat.le_of_lt_succ (Nat.lt_of_lt_of_le this (by
          have h1 : mb.uidNext ≤ u := hnext
          have h2 : 2 ^ 32 < mb.uidNext + 2 := hroom
          exact Nat.le_trans (Nat.le_of_lt_succ h2) (Nat.succ_le_succ h1)))
      have hbelow : max old.lastUid (maxUid (folderPass db acc f r).2.fetched) < u := by
        refine Nat.lt_of_le_of_lt hbound ?_
        by_cases hnil : (folderPass db acc f r).2.fetched = []
        · rw [hnil]; exact Mailbox.uid_pos hu
        · obtain ⟨m, hm, hmax⟩ := maxUid_mem hnil
          rw [hmax]
          have ho' : Enumerates r (mb.plan (loadCursor db acc f)).afterUid order := by
            rw [hold, (mb.plan_reset hv).2.1]; exact ho
          have hin := mem_planned_of_fetched hr ho' hm
          exact Nat.lt_of_lt_of_le (Mailbox.uid_lt_next (Mailbox.uids_of_planned hin)) hnext
      rw [e]
      have hafter : (mb'.plan (some ⟨mb.uidValidity, max old.lastUid
          (maxUid (folderPass db acc f r).2.fetched), (mb.plan (some old)).newModseq⟩)).afterUid =
          some (max old.lastUid (maxUid (folderPass db acc f r).2.fetched)) := by
        simp [Mailbox.plan, passPlan, hlater.uidValidity]
      rw [hafter, show searchQuery (some (max old.lastUid
        (maxUid (folderPass db acc f r).2.fetched))) = max old.lastUid
        (maxUid (folderPass db acc f r).2.fetched) + 1 from
        Nat.mod_eq_of_lt (Nat.lt_of_le_of_lt hbelow hlt), Mailbox.mem_searchFrom (Nat.succ_pos _)]
      exact ⟨hu, .inr hlast⟩
  · left
    rw [e]
    have hafter : (mb'.plan (some ⟨mb.uidValidity, 0,
        (mb.plan (some old)).newModseq⟩)).afterUid = some 0 := by
      simp [Mailbox.plan, passPlan, hlater.uidValidity]
    rw [hafter]
    exact hall _ rfl

/-! ## The condition is necessary -/

theorem fetched_replies (hold : loadCursor db acc f = some old)
    (hv : old.uidValidity ≠ mb.uidValidity) (horder : order.Perm mb.uids) (hne : order ≠ []) (n : Nat) :
    (folderPass db acc f (mb.replies (mb.plan (some old)) order n)).2.fetched.Perm
      ((mb.plannedBatches (mb.plan (some old)) order).take n).flatten := by
  have hq : (mb.plan (some old)).afterUid = none := (mb.plan_reset hv).2.1
  have horder' : order.Perm (mb.searchFrom (searchQuery (mb.plan (loadCursor db acc f)).afterUid)) := by
    rw [hold, hq, searchQuery, Mailbox.searchFrom_one]; exact horder
  obtain ⟨⟨bs, hbs, hrun⟩, _⟩ := folderPass_replies acc f db n horder'
    (by rw [hold, hq]; decide)
    (by rw [hold, mb.newUids_reset hv]; exact fun h => hne h.2)
  rw [hold] at hbs hrun
  rw [hrun, fetched_persistAll]
  exact flatten_perm hbs

theorem ResetBounded.reached (h : ResetBounded db acc f mb order)
    (hold : loadCursor db acc f = some old) (hv : old.uidValidity ≠ mb.uidValidity)
    (horder : order.Perm mb.uids) (hne : order ≠ []) :
    ∃ u ∈ order.take metadataChunk, old.lastUid ≤ u := by
  have hq : (mb.plan (loadCursor db acc f)).afterUid = none := by
    rw [hold]; exact (mb.plan_reset hv).2.1
  have horder' : order.Perm (mb.searchFrom (searchQuery (mb.plan (loadCursor db acc f)).afterUid)) := by
    rw [hq, searchQuery, Mailbox.searchFrom_one]; exact horder
  obtain ⟨u₀, hu₀⟩ := List.exists_mem_of_ne_nil order hne
  obtain ⟨rest, hrest⟩ := mb.plannedBatches_reset hv hne
  -- The pass cut after its first chunk.
  obtain ⟨c, hc, hcur, _, hload, _⟩ := cut_commit horder' hu₀ Nat.one_pos
    (by rw [hold, hrest]; simp)
  have hle := h _ (answers_replies horder' 1) (by rw [← hq]; exact enumerates_replies _ _ _) c.cursor
    hload (by rw [hcur]; rfl)
  rw [hcur, hold, maxUid_perm (fetched_replies hold hv horder hne 1), hrest] at hle
  simp only [List.take_succ_cons, List.take_zero, List.flatten_cons, List.flatten_nil,
    List.append_nil] at hle
  have hbatch : mb.fetch (order.take metadataChunk) ≠ [] := by
    intro h'
    have hmem : u₀ ∈ mb.uids := horder.mem_iff.mp hu₀
    cases order with
    | nil => exact hne rfl
    | cons a l =>
      have : a ∈ (mb.fetch ((a :: l).take metadataChunk)).map ImapMessage.uid :=
        Mailbox.mem_uids_fetch.mpr ⟨List.mem_cons_self, horder.mem_iff.mp List.mem_cons_self⟩
      rw [h'] at this
      cases this
  obtain ⟨m, hm, hmax⟩ := maxUid_mem hbatch
  refine ⟨m.uid, (Mailbox.mem_uids_fetch.mp (List.mem_map_of_mem hm)).1, ?_⟩
  rw [← hmax]
  exact Nat.le_trans (Nat.le_max_left _ _) hle

/-- One message expunged, two appended. -/
def Mailbox.turnover (mb : Mailbox) (h : mb.uidNext + 2 ≤ 2 ^ 32) : Mailbox where
  uidValidity := mb.uidValidity
  uidNext := mb.uidNext + 2
  messages := mb.messages.tail ++ [⟨{ uid := mb.uidNext }, mb.highestModseq.getD 0 + 1⟩,
    ⟨{ uid := mb.uidNext + 1 }, mb.highestModseq.getD 0 + 1⟩]
  highestModseq := mb.highestModseq.map (· + 1)
  condstore := mb.condstore
  ascending := by
    rw [List.map_append, List.pairwise_append]
    have htail : (mb.messages.tail.map ServerMessage.uid).Sublist (mb.messages.map ServerMessage.uid) :=
      (List.tail_sublist _).map _
    refine ⟨mb.ascending.sublist htail, by simp [ServerMessage.uid], ?_⟩
    intro a ha b hb
    obtain ⟨m, hm, rfl⟩ := List.mem_map.mp (htail.subset ha)
    have := (mb.uidBounds m hm).2
    simp only [List.map_cons, List.map_nil, List.mem_cons, List.not_mem_nil, or_false,
      ServerMessage.uid] at hb this ⊢
    rcases hb with rfl | rfl
    · exact this
    · exact Nat.lt_succ_of_lt this
  uidBounds := by
    intro m hm
    rcases List.mem_append.mp hm with hm | hm
    · have := mb.uidBounds m (List.mem_of_mem_tail hm)
      exact ⟨this.1, Nat.lt_add_right 2 this.2⟩
    · simp only [List.mem_cons, List.not_mem_nil, or_false] at hm
      rcases hm with rfl | rfl
      · exact ⟨mb.uidNextPos, Nat.lt_add_of_pos_right (by decide)⟩
      · exact ⟨Nat.succ_pos _, Nat.lt_succ_self _⟩
  uidNextPos := Nat.succ_pos _
  uidLimit := h
  modseqBound := by
    intro k hk m hm
    obtain ⟨k₀, hk₀, rfl⟩ := Option.map_eq_some_iff.mp hk
    rcases List.mem_append.mp hm with hm | hm
    · exact Nat.le_succ_of_le (mb.modseqBound k₀ hk₀ m (List.mem_of_mem_tail hm))
    · simp only [List.mem_cons, List.not_mem_nil, or_false, hk₀, Option.getD_some] at hm
      rcases hm with rfl | rfl
      · exact Nat.le_refl _
      · exact Nat.le_refl _

theorem Mailbox.uids_turnover (h : mb.uidNext + 2 ≤ 2 ^ 32) :
    (mb.turnover h).uids = mb.uids.tail ++ [mb.uidNext, mb.uidNext + 1] := by
  simp [Mailbox.uids, Mailbox.turnover, ServerMessage.uid, List.map_tail]

theorem Mailbox.later_turnover (h : mb.uidNext + 2 ≤ 2 ^ 32) : mb.Later (mb.turnover h) where
  uidValidity := rfl
  condstore := rfl
  uidNext := Nat.le_add_right _ 2
  old := by
    intro m hm hlt
    rcases List.mem_append.mp hm with hm | hm
    · exact Mailbox.mem_uids.mpr ⟨m, List.mem_of_mem_tail hm, rfl⟩
    · simp only [List.mem_cons, List.not_mem_nil, or_false] at hm
      rcases hm with rfl | rfl
      · exact absurd hlt (Nat.lt_irrefl _)
      · exact absurd hlt (Nat.not_lt.mpr (Nat.le_succ _))
  highest := fun k hk => ⟨k + 1, by simp [Mailbox.turnover, hk], Nat.le_succ k⟩
  fresh := by
    intro k hk m hm
    rcases List.mem_append.mp hm with hm | hm
    · exact .inl (List.mem_of_mem_tail hm)
    · right
      simp only [List.mem_cons, List.not_mem_nil, or_false, hk, Option.getD_some] at hm
      rcases hm with rfl | rfl
      · exact Nat.lt_succ_self k
      · exact Nat.lt_succ_self k

/-- A search from beyond the old messages lists only the second of the two. -/
theorem Mailbox.not_mem_search_turnover (h : mb.uidNext + 2 ≤ 2 ^ 32) (hne : mb.uids ≠ []) {n : Nat}
    (hn : mb.uids.length < n) : mb.uidNext ∉ (mb.turnover h).searchFrom n := by
  have hlen : mb.uids.tail.length = mb.uids.length - 1 := List.length_tail
  have hpos := List.length_pos_of_ne_nil hne
  have hnot : mb.uidNext ∉ mb.uids.tail := fun h' =>
    Nat.lt_irrefl _ (Mailbox.uid_lt_next (List.mem_of_mem_tail h'))
  rw [Mailbox.mem_searchFrom (by omega)]
  rintro ⟨_, hs | hl⟩
  · rw [Mailbox.seq, Mailbox.uids_turnover, List.idxOf_append_of_notMem hnot,
      List.idxOf_cons_self] at hs
    omega
  · rw [Mailbox.isLast, Mailbox.uids_turnover] at hl
    simp at hl

/-- When everything is listed, the greatest planned UID is at least the number of
messages. -/
theorem length_le_maxUid_planned (p : PassPlan) (horder : order.Perm mb.uids) :
    mb.uids.length ≤ maxUid (mb.plannedBatches p order).flatten := by
  by_cases hne : mb.uids = []
  · rw [hne]; exact Nat.zero_le _
  · have hlast : mb.isLast (mb.uids.getLast hne) := List.getLast?_eq_getLast_of_ne_nil hne
    obtain ⟨hmem, hseq⟩ := Mailbox.isLast_iff.mp hlast
    have hlisted : ∀ u ∈ order, u ∈ mb.uids := fun u hu => horder.mem_iff.mp hu
    have hin := Mailbox.mem_plannedBatches p (horder.nodup_iff.mpr mb.nodup_uids)
      hlisted (horder.mem_iff.mpr hmem)
    obtain ⟨m, hm, hmu⟩ := List.mem_map.mp hin
    calc mb.uids.length = mb.seq (mb.uids.getLast hne) := hseq.symm
      _ ≤ mb.uids.getLast hne := Mailbox.seq_le hmem
      _ = m.uid := hmu.symm
      _ ≤ _ := le_maxUid hm

theorem maxUid_planned_lt (p : PassPlan) : maxUid (mb.plannedBatches p order).flatten < mb.uidNext := by
  by_cases hnil : (mb.plannedBatches p order).flatten = []
  · rw [hnil]; exact mb.uidNextPos
  · obtain ⟨m, hm, hmax⟩ := maxUid_mem hnil
    rw [hmax]
    exact Mailbox.uid_lt_next (Mailbox.uids_of_planned hm)

/-- After a complete reset without mod-sequences, a turnover hides a new message
from the next pass. -/
theorem turnover_hidden {db₁ : Db} {last : Uid} (hroom : mb.uidNext + 2 ≤ 2 ^ 32)
    (hload : loadCursor db₁ acc f = some ⟨mb.uidValidity, last, 0⟩)
    (hlen : mb.uids.length ≤ last) (hlt : last < mb.uidNext) (hne : mb.uids ≠ []) :
    ∃ r', Answers (mb.turnover hroom) r' ∧ (folderPass db₁ acc f r').1 = .done ∧
      mb.uidNext ∉ (folderPass db₁ acc f r').2.fetched.map ImapMessage.uid := by
  have hplan : ((mb.turnover hroom).plan (loadCursor db₁ acc f)).uidvalidityChanged = false ∧
      ((mb.turnover hroom).plan (loadCursor db₁ acc f)).afterUid = some last ∧
      ((mb.turnover hroom).plan (loadCursor db₁ acc f)).storedModseq = 0 := by
    rw [hload]
    simp [Mailbox.plan, passPlan, Mailbox.turnover]
  obtain ⟨hv, hafter, hstored⟩ := hplan
  have hch := (mb.turnover hroom).changedBatch_of_changed _ hstored
  have hq : searchQuery ((mb.turnover hroom).plan (loadCursor db₁ acc f)).afterUid = last + 1 := by
    rw [hafter]
    exact Nat.mod_eq_of_lt (Nat.lt_of_le_of_lt hlt (Nat.lt_of_lt_of_le (Nat.lt_add_of_pos_right
      (by decide)) hroom))
  have hperm : ((mb.turnover hroom).searchFrom (last + 1)).Perm ((mb.turnover hroom).searchFrom
      (searchQuery ((mb.turnover hroom).plan (loadCursor db₁ acc f)).afterUid)) := by rw [hq]
  obtain ⟨_, hdone⟩ := folderPass_replies acc f db₁ ((mb.turnover hroom).plannedBatches
      ((mb.turnover hroom).plan (loadCursor db₁ acc f))
      ((mb.turnover hroom).searchFrom (last + 1))).length hperm
    (by rw [hq]; exact Nat.succ_ne_zero _) (by rw [hv]; simp)
  refine ⟨_, answers_replies hperm _, hdone (Nat.le_refl _), ?_⟩
  intro hmem
  obtain ⟨m, hm, hmu⟩ := List.mem_map.mp hmem
  have hin := mem_planned_of_fetched (answers_replies hperm _) (enumerates_replies _ _ _) hm
  rcases Mailbox.listed_of_planned (List.mem_map_of_mem hin) with hl | hl
  · rw [hmu] at hl
    exact Mailbox.not_mem_search_turnover hroom hne (Nat.lt_succ_of_le hlen) hl
  · rw [hch] at hl
    cases hl

theorem AppendedFound.tracked (h : AppendedFound db acc f mb order)
    (hb : ResetBounded db acc f mb order) (hold : loadCursor db acc f = some old)
    (hv : old.uidValidity ≠ mb.uidValidity) (horder : order.Perm mb.uids) (hne : order ≠ []) :
    mb.Tracked ∨ 2 ^ 32 < mb.uidNext + 2 := by
  by_contra hcon
  obtain ⟨huntracked, hroom⟩ := not_or.mp hcon
  have hroom : mb.uidNext + 2 ≤ 2 ^ 32 := Nat.not_lt.mp hroom
  have hq : (mb.plan (some old)).afterUid = none := (mb.plan_reset hv).2.1
  have horder' : order.Perm (mb.searchFrom (searchQuery (mb.plan (loadCursor db acc f)).afterUid)) := by
    rw [hold, hq, searchQuery, Mailbox.searchFrom_one]; exact horder
  have huids : mb.uids ≠ [] := by
    intro h'; rw [h'] at horder; exact hne horder.eq_nil
  obtain ⟨u₀, hu₀⟩ := List.exists_mem_of_ne_nil order hne
  obtain ⟨rest, hrest⟩ := mb.plannedBatches_reset hv hne
  -- The undisturbed first pass commits the greatest UID, and no mod-sequence.
  obtain ⟨c, _, hcur, _, hload, _⟩ := cut_commit horder' hu₀
    (by rw [hold, hrest]; exact Nat.succ_pos _) (Nat.le_refl _)
  have hans := answers_replies horder' (mb.plannedBatches (mb.plan (loadCursor db acc f)) order).length
  rw [List.take_length] at hcur
  rw [hold] at hcur hload hans
  have henum : Enumerates (mb.replies (mb.plan (some old)) order
      (mb.plannedBatches (mb.plan (some old)) order).length) none order := by
    rw [← hq]; exact enumerates_replies _ _ _
  have hbound := hb _ hans henum c.cursor hload (by rw [hcur]; rfl)
  rw [maxUid_perm (fetched_replies hold hv horder hne _), List.take_length] at hbound
  have hmod : (mb.plan (some old)).newModseq = 0 := by
    simp only [Mailbox.plan, passPlan]
    rw [if_neg]
    simpa [Mailbox.Tracked] using huntracked
  have hlast : c.cursor.lastUid = max old.lastUid
      (maxUid (mb.plannedBatches (mb.plan (some old)) order).flatten) := by rw [hcur]; rfl
  have hlen : mb.uids.length ≤ c.cursor.lastUid := by
    rw [hlast]
    exact Nat.le_trans (length_le_maxUid_planned _ horder) (Nat.le_max_right _ _)
  have hform : c.cursor = ⟨mb.uidValidity, c.cursor.lastUid, 0⟩ := by
    rw [hlast, hcur, hmod]
    rfl
  rw [hform] at hload
  obtain ⟨r', hr', hdone, hnot⟩ := turnover_hidden hroom hload hlen
    (Nat.lt_of_le_of_lt hbound (maxUid_planned_lt _)) huids
  refine hnot (h _ hans henum _ (Mailbox.later_turnover hroom) r' hr' hdone _ ?_ (Nat.le_refl _))
  rw [Mailbox.uids_turnover]
  simp

end Reset

/-- Under a new UIDVALIDITY, the committed cursor stays within what was fetched
and the next pass finds everything appended since, exactly when the mailbox is
empty or the first chunk reaches the old cursor and mod-sequences (or the lack
of room for two more UIDs) make up for the search by sequence number. -/
theorem reset_sound_iff (db : Db) (acc : AccountId) (f : FolderId) (mb : Mailbox) (order : List Uid)
    (old : SyncCursorInfo) (hold : loadCursor db acc f = some old)
    (hv : old.uidValidity ≠ mb.uidValidity) (horder : order.Perm mb.uids) :
    (ResetBounded db acc f mb order ∧ AppendedFound db acc f mb order) ↔
      ResetReached mb order old.lastUid := by
  constructor
  · rintro ⟨hb, hf⟩
    by_cases hempty : mb.messages = []
    · exact .inl hempty
    · have hne : order ≠ [] := by
        rintro rfl
        have := horder.symm.eq_nil
        exact hempty (List.map_eq_nil_iff.mp this)
      exact .inr ⟨hb.reached hold hv horder hne, hf.tracked hb hold hv horder hne⟩
  · intro h
    exact ⟨h.bounded hold hv horder, h.found hold hv horder⟩

/-! ## A recreated mailbox -/

/-- A folder last synced at `cursor`. -/
def syncedTo (cursor : SyncCursorInfo) : Db := saveCursorInTx (Db.fresh 0) ['a'] ['i'] cursor

/-- Two messages on a server that keeps mod-sequences. -/
def twoTracked : Mailbox where
  uidValidity := 2
  uidNext := 8
  messages := [⟨{ uid := 3 }, 5⟩, ⟨{ uid := 7 }, 6⟩]
  highestModseq := some 6
  condstore := true
  ascending := by decide
  uidBounds := by decide
  uidNextPos := by decide
  uidLimit := by decide
  modseqBound := by intro h hh; cases hh; decide

theorem reset_sound_two :
    ResetBounded (syncedTo ⟨1, 4, 0⟩) ['a'] ['i'] twoTracked [3, 7] ∧
      AppendedFound (syncedTo ⟨1, 4, 0⟩) ['a'] ['i'] twoTracked [3, 7] :=
  (reset_sound_iff (syncedTo ⟨1, 4, 0⟩) ['a'] ['i'] twoTracked [3, 7] ⟨1, 4, 0⟩
    (loadCursor_saveCursorInTx _ _ _ _) (by decide) (by decide)).mpr
    (.inr ⟨⟨7, by decide, by decide⟩, .inl ⟨rfl, by decide⟩⟩)

/-- Over nine messages under a new UIDVALIDITY, an old cursor of 100 is committed
again. -/
theorem reset_unsound_nine :
    ¬ ResetBounded (syncedTo ⟨7, 100, 0⟩) ['a'] ['i'] nineMessages [1, 2, 3, 4, 5, 6, 7, 8, 9] := by
  intro h
  obtain ⟨u, hu, hle⟩ := h.reached (loadCursor_saveCursorInTx _ _ _ _) (by decide) (by decide)
    (by decide)
  have hsmall : ∀ u ∈ [1, 2, 3, 4, 5, 6, 7, 8, 9].take metadataChunk, ¬ 100 ≤ u := by decide
  exact hsmall u hu hle

end Lyra
