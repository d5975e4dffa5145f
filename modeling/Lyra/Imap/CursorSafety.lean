import Lyra.Imap.Answers

/-!
# Cursor safety of a folder pass

The cursor is committed with every chunk, at the largest UID seen so far, and a
later pass lists only what lies beyond it.  So a commit is sound when every
listed UID up to it is stored, and a pass may be interrupted anywhere when, in
addition, the next search still lists what is missing.

* `cursor_safe_iff`: both hold for every failure point exactly when the batches
  come in an order that the cursor can follow (`FetchesInOrder`);
* `cursor_unsafe_nine`: nine messages enumerated with the last one first.
-/

namespace Lyra

open Lyra.Lib

variable {mb : Mailbox} {r : FolderReplies} {acc : AccountId} {f : FolderId}

/-! ## The property -/

/-- A listed UID above the previous cursor. -/
def PassPlan.Due (p : PassPlan) (order : List Uid) (u : Uid) : Prop :=
  u ∈ order ∧ p.afterUid.getD 0 < u

/-- Everything due up to the committed cursor is stored in the folder. -/
def Commit.Covers (c : Commit) (acc : AccountId) (f : FolderId) (due : Uid → Prop) : Prop :=
  ∀ u, due u → u ≤ c.cursor.lastUid → c.db.home acc (imapMessageExternalId f u) = some f

/-- At every failure point, each committed cursor covers the listing. -/
def CursorSafe (db : Db) (acc : AccountId) (f : FolderId) (mb : Mailbox) (order : List Uid) : Prop :=
  let p := mb.plan (loadCursor db acc f)
  ∀ r, Answers mb r → Enumerates r p.afterUid order →
    ∀ c ∈ (folderPass db acc f r).2.log, c.Covers acc f (p.Due order)

/-- A pass stopped anywhere and followed by one that reaches its end has stored
every listed message. -/
def NeverSkips (db : Db) (acc : AccountId) (f : FolderId) (mb : Mailbox) (order : List Uid) : Prop :=
  let p := mb.plan (loadCursor db acc f)
  ∀ r r', Answers mb r → Enumerates r p.afterUid order → Answers mb r' →
    (folderPass (folderPass db acc f r).2.db acc f r').1 = .done →
    ∀ u, p.Due order u → (folderPass (folderPass db acc f r).2.db acc f r').2.db.home acc
      (imapMessageExternalId f u) = some f

/-! ## The condition -/

/-- A search after cursor `a` still lists `u`. -/
def Mailbox.Beyond (mb : Mailbox) (a u : Uid) : Prop := a < u ∧ (a < mb.seq u ∨ mb.isLast u)

instance (mb : Mailbox) (a u : Uid) : Decidable (mb.Beyond a u) :=
  inferInstanceAs (Decidable (_ ∧ _))

/-- Due, and not stored in the folder before the pass (a new UIDVALIDITY makes
what is stored void). -/
def Missing (db : Db) (acc : AccountId) (f : FolderId) (p : PassPlan) (order : List Uid)
    (u : Uid) : Prop :=
  p.Due order u ∧
    ¬ (p.uidvalidityChanged = false ∧ db.home acc (imapMessageExternalId f u) = some f)

/-- No due UID is held by another folder, and every missing UID lies beyond the
old cursor and all UIDs of the batches before its own. -/
structure FetchesInOrder (db : Db) (acc : AccountId) (f : FolderId) (mb : Mailbox)
    (order : List Uid) : Prop where
  unmoved : ∀ u, (mb.plan (loadCursor db acc f)).Due order u →
    ∀ g, db.home acc (imapMessageExternalId f u) = some g → g = f
  ascending : ((mb.plannedBatches (mb.plan (loadCursor db acc f)) order).map
      (List.map ImapMessage.uid)).Pairwise fun earlier later =>
    ∀ u ∈ later, Missing db acc f (mb.plan (loadCursor db acc f)) order u →
      ∀ a ∈ (mb.plan (loadCursor db acc f)).chunkCursor :: earlier, mb.Beyond a u

/-! ## Where a UID is found after a cut -/

theorem filter_held {o : Option FolderId} {clear : Bool} (h : ∀ g, o = some g → g = f) :
    o.filter (fun g => !clear || decide (g ≠ f)) = if clear then none else o := by
  cases o with
  | none => simp
  | some g =>
    obtain rfl := h g rfl
    cases clear <;> simp [Option.filter]

theorem home_passStart (db : Db) (p : PassPlan) {u : Uid}
    (h : ∀ g, db.home acc (imapMessageExternalId f u) = some g → g = f) :
    (∀ g, (passStart db acc f r p).pass.db.home acc (imapMessageExternalId f u) = some g → g = f) ∧
    (db.home acc (imapMessageExternalId f u) = some f →
      (passStart db acc f r p).pass.db.home acc (imapMessageExternalId f u) = some f) := by
  rcases home_passPrelude db acc acc f r (imapMessageExternalId f u) with e | ⟨e, e'⟩
  · constructor
    · intro g hg; exact h g (e ▸ hg)
    · intro hf; exact e.trans hf
  · constructor
    · intro g hg; exact Option.some.inj (hg.symm.trans e')
    · intro hf; rw [e] at hf; cases hf

/-- Persisted batches put an unmoved UID into the folder, and keep it there. -/
theorem home_persistAll_unmoved (p : PassPlan) (s : PassState) (cur : Uid)
    {bs : List (List ImapMessage)} (hbs : bs ≠ []) {u : Uid}
    (h : ∀ g, s.db.home acc (imapMessageExternalId f u) = some g → g = f) :
    (persistAll acc f p ⟨s, cur, false⟩ bs).pass.db.home acc (imapMessageExternalId f u) =
      if u ∈ bs.flatten.map ImapMessage.uid then some f
      else if p.uidvalidityChanged then none else s.db.home acc (imapMessageExternalId f u) := by
  rw [home_persistAll acc f p _ bs hbs u]
  simp only [Bool.not_false, Bool.and_true]
  rw [filter_held h]
  split
  · cases p.uidvalidityChanged with
    | true => rfl
    | false =>
      cases ho : s.db.home acc (imapMessageExternalId f u) with
      | none => rfl
      | some g => rw [h g ho]; rfl
  · rfl

/-! ## The condition is enough -/

section Enough

variable {db : Db} {order : List Uid}

/-- What a run has not yet fetched lies beyond its cursor. -/
theorem FetchesInOrder.beyond (h : FetchesInOrder db acc f mb order)
    {fetched rest : List (List ImapMessage)}
    (hplan : mb.plannedBatches (mb.plan (loadCursor db acc f)) order = fetched ++ rest)
    (hne : fetched ≠ []) {u : Uid} (hu : u ∈ rest.flatten.map ImapMessage.uid)
    (hm : Missing db acc f (mb.plan (loadCursor db acc f)) order u) :
    mb.Beyond (max (mb.plan (loadCursor db acc f)).chunkCursor (maxUid fetched.flatten)) u := by
  have hpair := h.ascending
  rw [hplan, List.map_append, List.pairwise_append] at hpair
  obtain ⟨m, hmr, rfl⟩ := List.mem_map.mp hu
  obtain ⟨later, hlater, hml⟩ := List.mem_flatten.mp hmr
  have key : ∀ earlier ∈ fetched, ∀ a ∈ (mb.plan (loadCursor db acc f)).chunkCursor ::
      earlier.map ImapMessage.uid, mb.Beyond a m.uid := fun earlier he =>
    hpair.2.2 _ (List.mem_map_of_mem he) _ (List.mem_map_of_mem hlater) m.uid
      (List.mem_map_of_mem hml) hm
  obtain ⟨first, hfirst⟩ := List.exists_mem_of_ne_nil fetched hne
  rcases Nat.le_total (maxUid fetched.flatten) (mb.plan (loadCursor db acc f)).chunkCursor with hle | hle
  · rw [Nat.max_eq_left hle]
    exact key first hfirst _ List.mem_cons_self
  · rw [Nat.max_eq_right hle]
    -- The maximum is the old cursor or the UID of a fetched message.
    by_cases hnil : fetched.flatten = []
    · have hzero : maxUid fetched.flatten = 0 := by rw [hnil]; rfl
      rw [hzero] at hle ⊢
      have := key first hfirst _ List.mem_cons_self
      rwa [Nat.le_zero.mp hle] at this
    · obtain ⟨n, hn, hmax⟩ := maxUid_mem hnil
      obtain ⟨b, hb, hnb⟩ := List.mem_flatten.mp hn
      rw [hmax]
      exact key b hb _ (List.mem_cons_of_mem _ (List.mem_map_of_mem hnb))

theorem FetchesInOrder.cursorSafe (h : FetchesInOrder db acc f mb order)
    (horder : order.Perm (mb.searchFrom (searchQuery (mb.plan (loadCursor db acc f)).afterUid))) :
    CursorSafe db acc f mb order := by
  unfold CursorSafe
  intro p r hr ho c hc u hdue hle
  rcases folderPass_commit acc f hr db ho hc with
    ⟨pre, b, pre', b', post', hplan, hpre, hb, _, hcur, hdb⟩ | ⟨hv, hnew, _, hcur⟩
  · have hperm : ((pre ++ [b]).flatten.map ImapMessage.uid).Perm
        ((pre' ++ [b']).flatten.map ImapMessage.uid) :=
      (flatten_perm (List.rel_append hpre (List.Forall₂.cons hb List.Forall₂.nil))).map _
    have hun := h.unmoved u hdue
    obtain ⟨hstart, hkeep⟩ := home_passStart (r := r) db p hun
    have hhome := home_persistAll_unmoved p (passPrelude db acc f r) p.chunkCursor
      (show pre ++ [b] ≠ [] by simp) hstart
    rw [hdb]
    refine hhome.trans ?_
    by_cases hfetched : u ∈ (pre' ++ [b']).flatten.map ImapMessage.uid
    · rw [if_pos (hperm.mem_iff.mpr hfetched)]
    · rw [if_neg fun h' => hfetched (hperm.mem_iff.mp h')]
      by_cases hset : p.uidvalidityChanged = false ∧ db.home acc (imapMessageExternalId f u) = some f
      · rw [hset.1]
        exact hkeep hset.2
      · -- A missing UID that is not yet fetched would lie beyond the cursor.
        have hin := Mailbox.mem_plannedBatches p (listed_nodup horder) (listed_mem horder) hdue.1
        rw [hplan, List.append_cons, List.flatten_append, List.map_append, List.mem_append] at hin
        have hrest := hin.resolve_left hfetched
        have hbeyond := h.beyond (hplan.trans (List.append_cons pre' b' post')) (by simp) hrest
          ⟨hdue, hset⟩
        rw [hcur] at hle
        exact absurd hbeyond.1 (Nat.not_lt.mpr hle)
  · -- A reset has nothing listed.
    have : u ∈ mb.newUids p order := by
      rw [Mailbox.mem_newUids,
        mb.changedBatch_of_changed p (Mailbox.plan_storedModseq_of_changed hv)]
      exact ⟨hdue.1, by simp⟩
    rw [hnew] at this
    cases this

/-- After a pass that reached its end, an unmoved UID is stored when the search
listed it or it was stored before. -/
theorem home_of_done (hr : Answers mb r) (hdone : (folderPass db acc f r).1 = .done) {u : Uid}
    (hun : ∀ g, db.home acc (imapMessageExternalId f u) = some g → g = f)
    (hu : u ∈ mb.searchFrom (searchQuery (mb.plan (loadCursor db acc f)).afterUid) ∨
      ((mb.plan (loadCursor db acc f)).uidvalidityChanged = false ∧
        db.home acc (imapMessageExternalId f u) = some f)) :
    (folderPass db acc f r).2.db.home acc (imapMessageExternalId f u) = some f := by
  obtain ⟨order, hs⟩ := search_of_done hr hdone
  have ho : Enumerates r (mb.plan (loadCursor db acc f)).afterUid order := by
    intro l hl; rw [hs] at hl; cases hl; rfl
  have horder := (hr.search _ _ hs).2
  obtain ⟨hstart, hkeep⟩ := home_passStart (r := r) db (mb.plan (loadCursor db acc f)) hun
  have hlisted : u ∈ order → u ∈ (mb.plannedBatches (mb.plan (loadCursor db acc f)) order).flatten.map
      ImapMessage.uid := Mailbox.mem_plannedBatches _ (listed_nodup horder) (listed_mem horder)
  rcases folderPass_run acc f hr db ho with ⟨hnd, _⟩ | ⟨bs, ⟨hbs⟩, h⟩ | ⟨hv, hnew, _, h⟩
  · exact absurd hdone hnd
  · have hplan := hbs.planned
    rw [hbs.all hdone, List.append_nil] at hplan
    rw [h]
    by_cases hnil : bs = []
    · subst hnil
      have hf : hbs.fetched = [] := List.forall₂_nil_left_iff.mp hbs.perm
      rcases hu with hu | ⟨_, hu⟩
      · have := hlisted (horder.mem_iff.mpr hu)
        rw [hplan, hf] at this
        cases this
      · exact hkeep hu
    · have hhome := home_persistAll_unmoved (mb.plan (loadCursor db acc f)) (passPrelude db acc f r)
        (mb.plan (loadCursor db acc f)).chunkCursor hnil hstart
      refine hhome.trans ?_
      have hperm := (flatten_perm hbs.perm).map ImapMessage.uid
      rw [← hplan] at hperm
      rcases hu with hu | ⟨hv, hu⟩
      · rw [if_pos (hperm.mem_iff.mpr (hlisted (horder.mem_iff.mpr hu)))]
      · rw [hv]
        split
        · rfl
        · exact hkeep hu
  · rcases hu with hu | ⟨hv', _⟩
    · have : u ∈ mb.newUids (mb.plan (loadCursor db acc f)) order := by
        rw [Mailbox.mem_newUids,
          mb.changedBatch_of_changed _ (Mailbox.plan_storedModseq_of_changed hv)]
        exact ⟨horder.mem_iff.mpr hu, by simp⟩
      rw [hnew] at this
      cases this
    · rw [hv] at hv'; cases hv'

theorem FetchesInOrder.neverSkips (h : FetchesInOrder db acc f mb order)
    (horder : order.Perm (mb.searchFrom (searchQuery (mb.plan (loadCursor db acc f)).afterUid))) :
    NeverSkips db acc f mb order := by
  unfold NeverSkips
  intro p r r' hr ho hr' hdone u hdue
  have hun := h.unmoved u hdue
  have hlist : u ∈ mb.searchFrom (searchQuery p.afterUid) := horder.mem_iff.mp hdue.1
  rcases folderPass_run acc f hr db ho with ⟨_, hrun⟩ | ⟨bs, ⟨hbs⟩, hrun⟩ | ⟨hv, hnew, _, _⟩
  · rw [hrun] at hdone ⊢
    exact home_of_done hr' hdone hun (.inl hlist)
  · rw [hrun] at hdone ⊢
    obtain ⟨hstart, hkeep⟩ := home_passStart (r := r) db p hun
    by_cases hnil : bs = []
    · -- No commit: the next pass starts from the same cursor.
      subst hnil
      refine home_of_done hr' hdone hstart (.inl ?_)
      simp only [persistAll_nil, passStart, loadCursor_passPrelude]
      exact hlist
    · have hcur : loadCursor (persistAll acc f p (passStart db acc f r p) bs).pass.db acc f =
          some ⟨p.uidValidity, max p.chunkCursor (maxUid bs.flatten), p.newModseq⟩ :=
        loadCursor_persistAll p _ hnil
      have hhome := home_persistAll_unmoved p (passPrelude db acc f r) p.chunkCursor hnil hstart
      have hsame : (mb.plan (some ⟨p.uidValidity, max p.chunkCursor (maxUid bs.flatten),
          p.newModseq⟩)).uidvalidityChanged = false := by
        simp [Mailbox.plan, passPlan, p]
      refine home_of_done hr' hdone ?_ ?_
      · intro g hg
        rw [show (persistAll acc f p (passStart db acc f r p) bs).pass.db.home acc
          (imapMessageExternalId f u) = _ from hhome] at hg
        split at hg
        · exact (Option.some.inj hg).symm
        · split at hg
          · cases hg
          · exact hstart g hg
      · rw [hcur, hsame]
        by_cases hfetched : u ∈ bs.flatten.map ImapMessage.uid
        · exact .inr ⟨rfl, hhome.trans (if_pos hfetched)⟩
        · by_cases hset : p.uidvalidityChanged = false ∧
              db.home acc (imapMessageExternalId f u) = some f
          · refine .inr ⟨rfl, hhome.trans ?_⟩
            rw [if_neg hfetched, hset.1]
            exact hkeep hset.2
          · -- Still missing: the next search lists it.
            left
            have hin := Mailbox.mem_plannedBatches p (listed_nodup horder) (listed_mem horder) hdue.1
            have hperm := (flatten_perm hbs.perm).map ImapMessage.uid
            rw [hbs.planned, List.flatten_append, List.map_append, List.mem_append] at hin
            have hrest := hin.resolve_left fun h' => hfetched (hperm.mem_iff.mpr h')
            have hne : hbs.fetched ≠ [] := by
              intro h'
              have := hbs.perm
              rw [h'] at this
              exact hnil (List.forall₂_nil_right_iff.mp this)
            have hb := h.beyond hbs.planned hne hrest ⟨hdue, hset⟩
            rw [← maxUid_perm (flatten_perm hbs.perm)] at hb
            have hmem := listed_mem horder u hdue.1
            have hlt := Mailbox.uid_lt hmem
            have hafter : (mb.plan (some ⟨p.uidValidity, max p.chunkCursor (maxUid bs.flatten),
                p.newModseq⟩)).afterUid = some (max p.chunkCursor (maxUid bs.flatten)) := by
              have := hsame
              simp only [Mailbox.plan, passPlan] at this ⊢
              rw [this]
              rfl
            have hbelow : max p.chunkCursor (maxUid bs.flatten) < u := hb.1
            have hq : searchQuery (some (max p.chunkCursor (maxUid bs.flatten))) =
                max p.chunkCursor (maxUid bs.flatten) + 1 :=
              Nat.mod_eq_of_lt (Nat.lt_of_le_of_lt hbelow hlt)
            rw [hafter, hq, Mailbox.mem_searchFrom (Nat.succ_pos _)]
            exact ⟨hmem, hb.2⟩
  · have : u ∈ mb.newUids p order := by
      rw [Mailbox.mem_newUids,
        mb.changedBatch_of_changed p (Mailbox.plan_storedModseq_of_changed hv)]
      exact ⟨hdue.1, by simp⟩
    rw [hnew] at this
    cases this

end Enough

/-! ## The condition is necessary -/

section Necessary

variable {db : Db} {order : List Uid}

/-- The pass cut after `n > 0` batches: its last commit, and where a UID is found. -/
theorem cut_commit (horder : order.Perm
      (mb.searchFrom (searchQuery (mb.plan (loadCursor db acc f)).afterUid)))
    {u₀ : Uid} (hu₀ : u₀ ∈ order) {n : Nat} (hn : 0 < n)
    (hlen : n ≤ (mb.plannedBatches (mb.plan (loadCursor db acc f)) order).length) :
    let p := mb.plan (loadCursor db acc f)
    let cut := ((mb.plannedBatches p order).take n).flatten
    let out := folderPass db acc f (mb.replies p order n)
    ∃ c ∈ out.2.log, c.cursor = ⟨p.uidValidity, max p.chunkCursor (maxUid cut), p.newModseq⟩ ∧
      c.db = out.2.db ∧ loadCursor out.2.db acc f = some c.cursor ∧
      ∀ u, out.2.db.home acc (imapMessageExternalId f u) =
        let held := (db.home acc (imapMessageExternalId f u)).filter fun g =>
          !p.uidvalidityChanged || decide (g ≠ f)
        if u ∈ cut.map ImapMessage.uid then some (held.getD f) else held := by
  intro p cut out
  obtain ⟨bs, hne, hbs, hlog, hload, c, hc, hdb, hcur⟩ :=
    cut_run horder (query_ne_zero horder hu₀) (not_reset hu₀) hn hlen
  refine ⟨c, hc, hcur, hdb, hload.trans (congrArg some hcur.symm), ?_⟩
  intro u
  rw [show out.2 = _ from hlog, home_persistAll acc f p _ _ hne]
  simp only [Bool.not_false, Bool.and_true, ((flatten_perm hbs).map ImapMessage.uid).mem_iff]
  rfl

theorem CursorSafe.unmoved (h : CursorSafe db acc f mb order)
    (horder : order.Perm (mb.searchFrom (searchQuery (mb.plan (loadCursor db acc f)).afterUid)))
    {u : Uid} (hu : (mb.plan (loadCursor db acc f)).Due order u) {g : FolderId}
    (hg : db.home acc (imapMessageExternalId f u) = some g) : g = f := by
  have hin := Mailbox.mem_plannedBatches (mb.plan (loadCursor db acc f)) (listed_nodup horder)
    (listed_mem horder) hu.1
  -- The undisturbed pass fetches `u`, and leaves its row where it was.
  have hlen : 0 < (mb.plannedBatches (mb.plan (loadCursor db acc f)) order).length := by
    apply List.length_pos_of_ne_nil
    intro h'; rw [h'] at hin; cases hin
  obtain ⟨c, hc, hcur, hdb, _, hhome⟩ := cut_commit horder hu.1 hlen (Nat.le_refl _)
  rw [List.take_length] at hcur hhome
  have hle : u ≤ c.cursor.lastUid := by
    obtain ⟨m, hm, rfl⟩ := List.mem_map.mp hin
    rw [hcur]
    exact Nat.le_trans (le_maxUid hm) (Nat.le_max_right _ _)
  have hcov := h _ (answers_replies horder _) (enumerates_replies _ _ _) c hc u hu hle
  rw [hdb, hhome u, if_pos hin, hg] at hcov
  by_contra hne
  simp [Option.filter, hne] at hcov

/-- Where a missing UID is found when the pass is cut before its batch: nowhere. -/
theorem home_cut_missing (h : CursorSafe db acc f mb order)
    (horder : order.Perm (mb.searchFrom (searchQuery (mb.plan (loadCursor db acc f)).afterUid)))
    {u : Uid} (hu : Missing db acc f (mb.plan (loadCursor db acc f)) order u) :
    (db.home acc (imapMessageExternalId f u)).filter (fun g =>
      !(mb.plan (loadCursor db acc f)).uidvalidityChanged || decide (g ≠ f)) = none := by
  have hun : ∀ g, db.home acc (imapMessageExternalId f u) = some g → g = f :=
    fun g hg => h.unmoved horder hu.1 hg
  rw [filter_held hun]
  cases hv : (mb.plan (loadCursor db acc f)).uidvalidityChanged with
  | true => rfl
  | false =>
    cases hh : db.home acc (imapMessageExternalId f u) with
    | none => rfl
    | some g => exact absurd ⟨hv, by rw [hh, hun g hh]⟩ hu.2

/-- A UID of a later batch is not among those of the batches before. -/
theorem not_mem_take_of_later (p : PassPlan) (hnodup : order.Nodup)
    (hmem : ∀ u ∈ order, u ∈ mb.uids) {i j : Nat} (hij : i < j)
    (hj : j < (mb.plannedBatches p order).length) {u : Uid}
    (hu : u ∈ ((mb.plannedBatches p order)[j]).map ImapMessage.uid) :
    u ∉ (((mb.plannedBatches p order).take (i + 1)).flatten).map ImapMessage.uid := by
  have hnd := Mailbox.nodup_plannedBatches p hnodup hmem
  rw [← List.take_append_drop (i + 1) (mb.plannedBatches p order), List.flatten_append,
    List.map_append] at hnd
  intro hu'
  refine (List.disjoint_of_nodup_append hnd) hu' ?_
  obtain ⟨m, hm, rfl⟩ := List.mem_map.mp hu
  refine List.mem_map_of_mem (List.mem_flatten.mpr ⟨_, ?_, hm⟩)
  refine List.mem_iff_getElem.mpr ⟨j - (i + 1), by simp; omega, ?_⟩
  rw [List.getElem_drop]
  congr 1
  omega

/-- Cut before its batch, the cursor stays below a missing UID. -/
theorem CursorSafe.below (h : CursorSafe db acc f mb order)
    (horder : order.Perm (mb.searchFrom (searchQuery (mb.plan (loadCursor db acc f)).afterUid)))
    {i j : Nat} (hij : i < j)
    (hj : j < (mb.plannedBatches (mb.plan (loadCursor db acc f)) order).length) {u : Uid}
    (hu : u ∈ ((mb.plannedBatches (mb.plan (loadCursor db acc f)) order)[j]).map ImapMessage.uid)
    (hm : Missing db acc f (mb.plan (loadCursor db acc f)) order u) :
    max (mb.plan (loadCursor db acc f)).chunkCursor
      (maxUid ((mb.plannedBatches (mb.plan (loadCursor db acc f)) order).take (i + 1)).flatten) < u := by
  obtain ⟨c, hc, hcur, hdb, _, hhome⟩ := cut_commit horder hm.1.1 (Nat.succ_pos i)
    (by omega : i + 1 ≤ (mb.plannedBatches (mb.plan (loadCursor db acc f)) order).length)
  have hnot := not_mem_take_of_later _ (listed_nodup horder) (listed_mem horder) hij hj hu
  rcases Nat.lt_or_ge (max (mb.plan (loadCursor db acc f)).chunkCursor
    (maxUid ((mb.plannedBatches (mb.plan (loadCursor db acc f)) order).take (i + 1)).flatten)) u
    with hlt | hge
  · exact hlt
  · have hcov := h _ (answers_replies horder _) (enumerates_replies _ _ _) c hc u hm.1
      (by rw [hcur]; exact hge)
    rw [hdb, hhome u, if_neg hnot, home_cut_missing h horder hm] at hcov
    cases hcov

/-- The search of the next pass lists what the cut pass still misses. -/
theorem NeverSkips.listed (h : NeverSkips db acc f mb order) (hsafe : CursorSafe db acc f mb order)
    (horder : order.Perm (mb.searchFrom (searchQuery (mb.plan (loadCursor db acc f)).afterUid)))
    {i j : Nat} (hij : i < j)
    (hj : j < (mb.plannedBatches (mb.plan (loadCursor db acc f)) order).length) {u : Uid}
    (hu : u ∈ ((mb.plannedBatches (mb.plan (loadCursor db acc f)) order)[j]).map ImapMessage.uid)
    (hm : Missing db acc f (mb.plan (loadCursor db acc f)) order u) :
    mb.Beyond (max (mb.plan (loadCursor db acc f)).chunkCursor
      (maxUid ((mb.plannedBatches (mb.plan (loadCursor db acc f)) order).take (i + 1)).flatten)) u := by
  have hbelow := hsafe.below horder hij hj hu hm
  generalize hp : mb.plan (loadCursor db acc f) = p at *
  subst hp
  obtain ⟨c, hc, hcur, hdb, hload, hhome⟩ := cut_commit horder hm.1.1 (Nat.succ_pos i)
    (by omega : i + 1 ≤ (mb.plannedBatches (mb.plan (loadCursor db acc f)) order).length)
  have hnot := not_mem_take_of_later _ (listed_nodup horder) (listed_mem horder) hij hj hu
  have hmiss := home_cut_missing hsafe horder hm
  generalize hcutdb : (folderPass db acc f (mb.replies (mb.plan (loadCursor db acc f)) order
    (i + 1))).2.db = db₁ at *
  generalize hlast : max (mb.plan (loadCursor db acc f)).chunkCursor
    (maxUid ((mb.plannedBatches (mb.plan (loadCursor db acc f)) order).take (i + 1)).flatten) = last
    at *
  rw [hcur] at hload
  have hnone : db₁.home acc (imapMessageExternalId f u) = none := by
    rw [hhome u, if_neg hnot, hmiss]
  obtain ⟨hv, hafter, _, hch⟩ := mb.plan_resumed (loadCursor db acc f) last
  rw [← hload] at hv hafter hch
  have humem := listed_mem horder u hm.1.1
  have hq : searchQuery (mb.plan (loadCursor db₁ acc f)).afterUid = last + 1 := by
    rw [hafter]
    exact Nat.mod_eq_of_lt (Nat.lt_of_le_of_lt hbelow (Mailbox.uid_lt humem))
  refine ⟨hbelow, ?_⟩
  by_contra hunlisted
  have hnl : u ∉ mb.searchFrom (last + 1) := by
    rw [Mailbox.mem_searchFrom (Nat.succ_pos _)]
    exact fun h' => hunlisted h'.2
  -- An undisturbed next pass does not meet `u` at all.
  have hperm : (mb.searchFrom (last + 1)).Perm
      (mb.searchFrom (searchQuery (mb.plan (loadCursor db₁ acc f)).afterUid)) := by rw [hq]
  obtain ⟨⟨bs, hbs, hrun⟩, hdone⟩ := folderPass_replies acc f db₁
    (mb.plannedBatches (mb.plan (loadCursor db₁ acc f)) (mb.searchFrom (last + 1))).length hperm
    (by rw [hq]; exact Nat.succ_ne_zero _) (by rw [hv]; simp)
  have hend := h _ (mb.replies (mb.plan (loadCursor db₁ acc f)) (mb.searchFrom (last + 1)) _)
    (answers_replies horder (i + 1)) (enumerates_replies _ _ _) (answers_replies hperm _)
    (by rw [hcutdb]; exact hdone (Nat.le_refl _)) u hm.1
  rw [hcutdb, hrun] at hend
  have hfin : u ∉ bs.flatten.map ImapMessage.uid := by
    rw [((flatten_perm hbs).map ImapMessage.uid).mem_iff, List.take_length]
    intro h'
    rcases Mailbox.listed_of_planned h' with h' | h'
    · exact hnl h'
    · rw [hch] at h'; cases h'
  by_cases hnil : bs = []
  · rw [hnil] at hend
    rw [show (persistAll acc f _ _ ([] : List (List ImapMessage))).pass.db = db₁ from rfl, hnone]
      at hend
    cases hend
  · rw [home_persistAll_unmoved _ _ _ hnil (by rw [hnone]; simp), if_neg hfin, hv, hnone] at hend
    cases hend

end Necessary

/-- A folder pass never commits its cursor past an unstored message and never
loses one to an interruption, exactly when the batches come in an order the
cursor can follow. -/
theorem cursor_safe_iff (db : Db) (acc : AccountId) (f : FolderId) (mb : Mailbox) (order : List Uid)
    (horder : order.Perm (mb.searchFrom (searchQuery (mb.plan (loadCursor db acc f)).afterUid))) :
    (CursorSafe db acc f mb order ∧ NeverSkips db acc f mb order) ↔
      FetchesInOrder db acc f mb order := by
  constructor
  · rintro ⟨hsafe, hnever⟩
    refine ⟨fun u hu g hg => hsafe.unmoved horder hu hg, ?_⟩
    rw [List.pairwise_map, List.pairwise_iff_getElem]
    intro i j hi hj hij u hu hm a ha
    have hb := hnever.listed hsafe horder hij hj hu hm
    have hle : a ≤ max (mb.plan (loadCursor db acc f)).chunkCursor
        (maxUid ((mb.plannedBatches (mb.plan (loadCursor db acc f)) order).take (i + 1)).flatten) := by
      rcases List.mem_cons.mp ha with rfl | ha
      · exact Nat.le_max_left _ _
      · obtain ⟨m, hm', rfl⟩ := List.mem_map.mp ha
        refine Nat.le_trans (le_maxUid (List.mem_flatten.mpr ⟨_, ?_, hm'⟩)) (Nat.le_max_right _ _)
        exact List.mem_iff_getElem.mpr ⟨i, by simp; omega, by simp⟩
    refine ⟨Nat.lt_of_le_of_lt hle hb.1, ?_⟩
    rcases hb.2 with h | h
    · exact .inl (Nat.lt_of_le_of_lt hle h)
    · exact .inr h
  · intro h
    exact ⟨h.cursorSafe horder, h.neverSkips horder⟩

/-! ## A mailbox of nine messages -/

/-- Nine messages with UIDs 1 to 9, on a server without CONDSTORE. -/
def nineMessages : Mailbox where
  uidValidity := 1
  uidNext := 10
  messages := (List.range' 1 9).map fun u => ⟨{ uid := u }, 0⟩
  highestModseq := none
  condstore := false
  ascending := by decide
  uidBounds := by decide
  uidNextPos := by decide
  uidLimit := by decide
  modseqBound := by intro h hh; cases hh

theorem cursor_safe_nine_ascending :
    [1, 2, 3, 4, 5, 6, 7, 8, 9].Perm (nineMessages.searchFrom 1) ∧
      CursorSafe (Db.fresh 0) ['a'] ['i'] nineMessages [1, 2, 3, 4, 5, 6, 7, 8, 9] ∧
      NeverSkips (Db.fresh 0) ['a'] ['i'] nineMessages [1, 2, 3, 4, 5, 6, 7, 8, 9] := by
  refine ⟨by decide, (cursor_safe_iff (Db.fresh 0) ['a'] ['i'] nineMessages
    [1, 2, 3, 4, 5, 6, 7, 8, 9] (by decide)).mpr ⟨?_, ?_⟩⟩
  · intro u _ g hg
    cases hg
  · have hall : ((nineMessages.plannedBatches (nineMessages.plan none)
        [1, 2, 3, 4, 5, 6, 7, 8, 9]).map (List.map ImapMessage.uid)).Pairwise fun earlier later =>
        ∀ u ∈ later, ∀ a ∈ (nineMessages.plan none).chunkCursor :: earlier,
          nineMessages.Beyond a u := by decide
    exact hall.imp fun h u hu _ => h u hu

/-- Enumerated with UID 9 first, the first chunk commits the cursor 9 while UID 8
is not stored. -/
theorem cursor_unsafe_nine :
    ¬ CursorSafe (Db.fresh 0) ['a'] ['i'] nineMessages [9, 1, 2, 3, 4, 5, 6, 7, 8] := by
  intro h
  have hlt := h.below (i := 0) (j := 1) (u := 8) (by decide) (by decide) (by decide) (by decide)
    ⟨⟨by decide, by decide⟩, by decide⟩
  exact absurd hlt (by decide)

end Lyra
