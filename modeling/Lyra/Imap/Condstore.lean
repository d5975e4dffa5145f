import Lyra.Imap.Answers

/-!
# Flag changes and the committed mod-sequence

With CONDSTORE, a pass asks for what changed since the stored mod-sequence and
commits the mailbox's highest one.  The new mod-sequence is part of every
commit of the pass, while the changed messages are persisted last.

* `flags_sound_iff`: each commit has applied the changes it claims, and an
  interrupted pass followed by a complete one leaves every flag as on the
  server, exactly when the first batch carries all outstanding changes;
* `flags_unsound_reread`: a changed flag behind a listed, unchanged message.
-/

namespace Lyra

open Lyra.Lib

variable {mb mb' : Mailbox} {r : FolderReplies} {acc : AccountId} {f : FolderId}

/-! ## Flag columns -/

/-- The columns that follow the server's flags. -/
def MessageRow.marks (r : MessageRow) : Bool × Bool × Option Text := (r.isRead, r.isStarred, r.flags)

def ImapMessage.marks (m : ImapMessage) : Bool × Bool × Option Text :=
  (m.isRead, m.isStarred, some m.flagsJson)

def Db.marks (db : Db) (acc : AccountId) (e : Text) : Option (Bool × Bool × Option Text) :=
  (db.messages.find (acc, e)).map MessageRow.marks

/-- The folder's row for `m` shows the flags `m` has on the server. -/
def Db.Shows (db : Db) (acc : AccountId) (f : FolderId) (m : ServerMessage) : Prop :=
  db.marks acc (imapMessageExternalId f m.uid) = some m.envelope.marks

/-! ## The property -/

/-- A message of this folder that was stored before the pass. -/
def Known (db : Db) (acc : AccountId) (f : FolderId) (p : PassPlan) (u : Uid) : Prop :=
  p.uidvalidityChanged = false ∧ db.home acc (imapMessageExternalId f u) = some f

/-- At every failure point, a commit with a mod-sequence has applied every change
of a known message between the stored mod-sequence and its own. -/
def FlagsSound (db : Db) (acc : AccountId) (f : FolderId) (mb : Mailbox) (order : List Uid) : Prop :=
  let p := mb.plan (loadCursor db acc f)
  ∀ r, Answers mb r → Enumerates r p.afterUid order → ∀ c ∈ (folderPass db acc f r).2.log,
    0 < c.cursor.lastModseq → ∀ m ∈ mb.messages, Known db acc f p m.uid →
      p.storedModseq < m.modseq → m.modseq ≤ c.cursor.lastModseq → c.db.Shows acc f m

/-- The state a sound pass leaves: known messages up to the stored mod-sequence
show the server's flags. -/
structure FlagsSynced (db : Db) (acc : AccountId) (f : FolderId) (mb : Mailbox) : Prop where
  bounded : (mb.plan (loadCursor db acc f)).storedModseq ≤ mb.highestModseq.getD 0
  shows : ∀ m ∈ mb.messages, Known db acc f (mb.plan (loadCursor db acc f)) m.uid →
    m.modseq ≤ (mb.plan (loadCursor db acc f)).storedModseq → db.Shows acc f m

/-- A pass stopped anywhere, then a complete one: every known message still on the
server shows its flags.  The server may change in between, once a mod-sequence is
stored to compare with. -/
def FlagsSettle (db : Db) (acc : AccountId) (f : FolderId) (mb : Mailbox) (order : List Uid) : Prop :=
  let p := mb.plan (loadCursor db acc f)
  mb.Tracked → FlagsSynced db acc f mb →
  ∀ r, Answers mb r → Enumerates r p.afterUid order → ∀ mb', mb.Later mb' →
    (mb' = mb ∨ ∃ c, loadCursor (folderPass db acc f r).2.db acc f = some c ∧ 0 < c.lastModseq) →
    ∀ r', Answers mb' r' → (folderPass (folderPass db acc f r).2.db acc f r').1 = .done →
      ∀ m ∈ mb'.messages, Known db acc f p m.uid →
        (folderPass (folderPass db acc f r).2.db acc f r').2.db.Shows acc f m

/-- The condition: the pass ends at its search, commits no mod-sequence, or its
first batch carries every known message with an outstanding change. -/
def ChangesFirst (db : Db) (acc : AccountId) (f : FolderId) (mb : Mailbox) (order : List Uid) : Prop :=
  let p := mb.plan (loadCursor db acc f)
  searchQuery p.afterUid = 0 ∨ p.newModseq = 0 ∨
    ∀ m ∈ mb.messages, Known db acc f p m.uid → p.storedModseq < m.modseq → ¬ db.Shows acc f m →
      m.uid ∈ ((mb.plannedBatches p order).headD []).map ImapMessage.uid

/-! ## Flag columns after each operation -/

theorem marks_upsertMessageInTx (db : Db) (acc : AccountId) (f : FolderId) (m : ImapMessage)
    (u : Uid) : (upsertMessageInTx db acc f m).2.marks acc (imapMessageExternalId f u) =
      if u = m.uid then some m.marks else db.marks acc (imapMessageExternalId f u) := by
  rw [Db.marks, find_upsertMessageInTx]
  by_cases h : u = m.uid
  · subst h
    rw [if_pos rfl, if_pos rfl]
    cases db.messages.find (acc, imapMessageExternalId f m.uid) <;> rfl
  · rw [if_neg h, if_neg (by simpa using h), Db.marks]

/-- Messages with one set of flags per UID leave those flags. -/
theorem marks_upsertMessages (db : Db) (acc : AccountId) (f : FolderId) (ms : List ImapMessage)
    (u : Uid) (w : Bool × Bool × Option Text) (hw : ∀ m ∈ ms, m.uid = u → m.marks = w) :
    (upsertMessages acc f db ms).2.marks acc (imapMessageExternalId f u) =
      if u ∈ ms.map ImapMessage.uid then some w else db.marks acc (imapMessageExternalId f u) := by
  induction ms generalizing db with
  | nil => simp [upsertMessages]
  | cons m ms ih =>
    rw [upsertMessages_cons, ih _ fun m' h => hw m' (List.mem_cons_of_mem _ h),
      marks_upsertMessageInTx]
    by_cases hu : u = m.uid
    · have := hw m List.mem_cons_self hu.symm
      simp [hu, this]
    · simp [hu]

/-- A batch is drawn from a mailbox. -/
def DrawnFrom (mb : Mailbox) (ms : List ImapMessage) : Prop :=
  ∀ x ∈ ms, ∃ m ∈ mb.messages, m.envelope = x

theorem DrawnFrom.marks {ms : List ImapMessage} (h : DrawnFrom mb ms) {m : ServerMessage}
    (hm : m ∈ mb.messages) : ∀ x ∈ ms, x.uid = m.uid → x.marks = m.envelope.marks := by
  intro x hx hu
  obtain ⟨m', hm', rfl⟩ := h x hx
  rw [Mailbox.eq_of_uid hm' hm hu]

theorem drawnFrom_fetch (us : List Uid) : DrawnFrom mb (mb.fetch us) := by
  intro x hx
  obtain ⟨m, hm, _, rfl⟩ := Mailbox.mem_fetch.mp hx
  exact ⟨m, hm, rfl⟩

theorem drawnFrom_planned (p : PassPlan) (order : List Uid) :
    DrawnFrom mb (mb.plannedBatches p order).flatten := by
  intro x hx
  rw [Mailbox.plannedBatches, List.flatten_append, Mailbox.finalBatch_uids] at hx
  rcases List.mem_append.mp hx with hx | hx
  · obtain ⟨b, hb, hxb⟩ := List.mem_flatten.mp hx
    obtain ⟨c, _, rfl⟩ := List.mem_map.mp hb
    exact drawnFrom_fetch c x hxb
  · unfold Mailbox.changedBatch at hx
    split at hx
    · obtain ⟨m, hm, _, rfl⟩ := Mailbox.mem_changedSince.mp hx
      exact ⟨m, hm, rfl⟩
    · cases hx

theorem marks_persistAll (p : PassPlan) (hv : p.uidvalidityChanged = false) (s : ChunkState)
    (bs : List (List ImapMessage)) {m : ServerMessage} (hm : m ∈ mb.messages)
    (hbs : DrawnFrom mb bs.flatten) :
    (persistAll acc f p s bs).pass.db.marks acc (imapMessageExternalId f m.uid) =
      if m.uid ∈ bs.flatten.map ImapMessage.uid then some m.envelope.marks
      else s.pass.db.marks acc (imapMessageExternalId f m.uid) := by
  induction bs generalizing s with
  | nil => simp
  | cons b bs ih =>
    have hb : DrawnFrom mb b := fun x hx => hbs x (by simp [hx])
    have hrest : DrawnFrom mb bs.flatten := fun x hx => hbs x (by
      rw [List.flatten_cons]; exact List.mem_append.mpr (.inr hx))
    have hone : (s.persist acc f p b).pass.db.marks acc (imapMessageExternalId f m.uid) =
        (upsertMessages acc f s.pass.db b).2.marks acc (imapMessageExternalId f m.uid) := by
      simp only [ChunkState.persist, hv, Bool.false_and]
      rfl
    rw [persistAll_cons, ih _ hrest, hone, marks_upsertMessages _ _ _ _ _ _ (hb.marks hm),
      List.flatten_cons, List.map_append]
    by_cases h1 : m.uid ∈ b.map ImapMessage.uid
    · simp [h1]
    · by_cases h2 : m.uid ∈ bs.flatten.map ImapMessage.uid
      · simp only [h1, h2, List.mem_append, or_true, ↓reduceIte]
      · simp only [h1, h2, List.mem_append, or_self, ↓reduceIte]

/-- The steps before the search keep what a row shows, or refresh it. -/
theorem marks_passPrelude (hr : Answers mb r) (db : Db) {m : ServerMessage} (hm : m ∈ mb.messages) :
    (passPrelude db acc f r).db.marks acc (imapMessageExternalId f m.uid) =
        db.marks acc (imapMessageExternalId f m.uid) ∨
      (passPrelude db acc f r).db.Shows acc f m := by
  have hrec : (passPrelude db acc f r).db.marks acc (imapMessageExternalId f m.uid) =
      (repairFolderMojibake db acc f r).marks acc (imapMessageExternalId f m.uid) := by
    unfold passPrelude reconcileStep
    split
    · rfl
    · split
      · exact view_reconcileFolderDeletions MessageRow.marks (fun _ => rfl) _ _ _ _ _
      · rfl
  rw [Db.Shows, hrec]
  unfold repairFolderMojibake
  dsimp only
  split
  · exact .inl rfl
  · split
    · exact .inl rfl
    · rename_i fetched hfetched
      split
      · exact .inl rfl
      · have hdrawn : DrawnFrom mb fetched := fun x hx =>
          drawnFrom_fetch _ x ((hr.repair _ _ hfetched).mem_iff.mp hx)
        have hview : (repairImapMessages db acc f fetched).marks acc (imapMessageExternalId f m.uid) =
            (upsertMessages acc f db fetched).2.marks acc (imapMessageExternalId f m.uid) :=
          view_repairImapMessages MessageRow.marks (fun _ => rfl) _ _ _ _ _
        rw [hview, marks_upsertMessages _ _ _ _ _ _ (hdrawn.marks hm)]
        split
        · exact .inr rfl
        · exact .inl rfl

theorem Shows.passPrelude (hr : Answers mb r) {db : Db} {m : ServerMessage} (hm : m ∈ mb.messages)
    (h : db.Shows acc f m) : (passPrelude db acc f r).db.Shows acc f m := by
  rcases marks_passPrelude (f := f) hr db hm with e | e
  · exact e.trans h
  · exact e

/-! ## The condition is enough -/

section Enough

variable {db : Db} {order : List Uid}

/-- A run of planned batches leaves a shown row shown. -/
theorem Shows.persistAll (hr : Answers mb r) {p : PassPlan} (hv : p.uidvalidityChanged = false)
    {bs : List (List ImapMessage)} (hbs : DrawnFrom mb bs.flatten) {m : ServerMessage}
    (hm : m ∈ mb.messages) (h : db.Shows acc f m ∨ m.uid ∈ bs.flatten.map ImapMessage.uid) :
    (persistAll acc f p (passStart db acc f r p) bs).pass.db.Shows acc f m := by
  rw [Db.Shows, marks_persistAll p hv _ bs hm hbs]
  rcases h with h | h
  · split
    · rfl
    · exact Shows.passPrelude hr hm h
  · rw [if_pos h]

theorem drawnFrom_perm {bs cs : List (List ImapMessage)} (h : List.Forall₂ List.Perm bs cs)
    (hcs : DrawnFrom mb cs.flatten) : DrawnFrom mb bs.flatten :=
  fun x hx => hcs x ((flatten_perm h).mem_iff.mp hx)

theorem drawnFrom_fetched {p : PassPlan} {complete : Prop} {bs : List (List ImapMessage)}
    (h : Persisted mb p order complete bs) : DrawnFrom mb bs.flatten := by
  refine drawnFrom_perm h.perm fun x hx => drawnFrom_planned p order x ?_
  rw [h.planned, List.flatten_append]
  exact List.mem_append.mpr (.inl hx)

/-- After a complete pass, a row shows the server's flags when it did before, or its
message was listed or reported as changed. -/
theorem shows_of_done (hr : Answers mb r) (hdone : (folderPass db acc f r).1 = .done)
    (hv : (mb.plan (loadCursor db acc f)).uidvalidityChanged = false) {m : ServerMessage}
    (hm : m ∈ mb.messages) (h : db.Shows acc f m ∨
      m.uid ∈ mb.searchFrom (searchQuery (mb.plan (loadCursor db acc f)).afterUid) ∨
      m.uid ∈ (mb.changedBatch (mb.plan (loadCursor db acc f))).map ImapMessage.uid) :
    (folderPass db acc f r).2.db.Shows acc f m := by
  obtain ⟨order, hs⟩ := search_of_done hr hdone
  have ho : Enumerates r (mb.plan (loadCursor db acc f)).afterUid order := by
    intro l hl; rw [hs] at hl; cases hl; rfl
  have horder := (hr.search _ _ hs).2
  rcases folderPass_run acc f hr db ho with ⟨hnd, _⟩ | ⟨bs, ⟨hbs⟩, hrun⟩ | ⟨hv', _, _, _⟩
  · exact absurd hdone hnd
  · rw [hrun]
    refine Shows.persistAll hr hv (drawnFrom_fetched hbs) hm (h.imp_right fun h => ?_)
    have hplan := hbs.planned
    rw [hbs.all hdone, List.append_nil] at hplan
    rw [((flatten_perm hbs.perm).map ImapMessage.uid).mem_iff, ← hplan]
    rcases h with h | h
    · exact Mailbox.mem_plannedBatches _ (listed_nodup horder) (listed_mem horder)
        (horder.mem_iff.mpr h)
    · exact Mailbox.mem_plannedBatches_of_changed _ h
  · rw [hv] at hv'; cases hv'

theorem ChangesFirst.flagsSound (h : ChangesFirst db acc f mb order) :
    FlagsSound db acc f mb order := by
  unfold FlagsSound
  intro p r hr ho c hc hpos m hm hknown hlt _
  have hq := query_ne_zero_of_commit hr hc
  rcases folderPass_commit acc f hr db ho hc with
    ⟨pre, b, pre', b', post', hplan, hpre, hb, _, hcur, hdb⟩ | ⟨hv, _, _, _⟩
  · have hperm : List.Forall₂ List.Perm (pre ++ [b]) (pre' ++ [b']) :=
      List.rel_append hpre (List.Forall₂.cons hb List.Forall₂.nil)
    rw [hdb]
    refine Shows.persistAll hr hknown.1 (drawnFrom_perm hperm ?_) hm ?_
    · intro x hx
      refine drawnFrom_planned p order x ?_
      rw [hplan, List.append_cons, List.flatten_append]
      exact List.mem_append.mpr (.inl hx)
    · by_cases hshow : db.Shows acc f m
      · exact .inl hshow
      · right
        rw [((flatten_perm hperm).map ImapMessage.uid).mem_iff]
        rcases h with h | h | h
        · exact absurd h hq
        · rw [hcur] at hpos
          exact absurd h (Nat.ne_of_gt hpos)
        · have hfirst := h m hm hknown hlt hshow
          rw [hplan] at hfirst
          cases pre' with
          | nil => simpa using hfirst
          | cons a pre' =>
            obtain ⟨x, hx, hxu⟩ := List.mem_map.mp hfirst
            refine List.mem_map.mpr ⟨x, ?_, hxu⟩
            rw [List.cons_append, List.flatten_cons]
            exact List.mem_append.mpr (.inl hx)
  · rw [hknown.1] at hv; cases hv

theorem Mailbox.Tracked.newModseq (h : mb.Tracked) (cursor : Option SyncCursorInfo) :
    ∃ n, mb.highestModseq = some n ∧ 0 < n ∧ (mb.plan cursor).newModseq = n := by
  obtain ⟨hc, hpos⟩ := h
  cases hh : mb.highestModseq with
  | none => rw [hh] at hpos; simp at hpos
  | some n =>
    rw [hh, Option.getD_some] at hpos
    refine ⟨n, rfl, hpos, ?_⟩
    simp [Mailbox.plan, passPlan, hc, hh, hpos]

theorem Mailbox.Later.plan_eq (h : mb.Later mb') (cursor : Option SyncCursorInfo) :
    (mb'.plan cursor).uidvalidityChanged = (mb.plan cursor).uidvalidityChanged ∧
      (mb'.plan cursor).storedModseq = (mb.plan cursor).storedModseq := by
  simp [Mailbox.plan, passPlan, h.uidValidity]

theorem Mailbox.mem_changedBatch (hc : mb.condstore = true) {p : PassPlan} (hpos : 0 < p.storedModseq)
    {m : ServerMessage} (hm : m ∈ mb.messages) (hlt : p.storedModseq < m.modseq) :
    m.uid ∈ (mb.changedBatch p).map ImapMessage.uid := by
  unfold Mailbox.changedBatch
  simp only [hc, hpos, decide_true, Bool.and_self, ↓reduceIte]
  exact Mailbox.mem_uids_changedSince.mpr ⟨m, hm, hlt, rfl⟩

/-- A known message with an outstanding change is in the first batch. -/
theorem ChangesFirst.first (h : ChangesFirst db acc f mb order)
    (hq : searchQuery (mb.plan (loadCursor db acc f)).afterUid ≠ 0)
    (hnew : (mb.plan (loadCursor db acc f)).newModseq ≠ 0) (hsync : FlagsSynced db acc f mb)
    {m : ServerMessage} (hm : m ∈ mb.messages)
    (hknown : Known db acc f (mb.plan (loadCursor db acc f)) m.uid) (hshow : ¬ db.Shows acc f m) :
    m.uid ∈ ((mb.plannedBatches (mb.plan (loadCursor db acc f)) order).headD []).map
      ImapMessage.uid := by
  have hlt : (mb.plan (loadCursor db acc f)).storedModseq < m.modseq := by
    rcases Nat.lt_or_ge (mb.plan (loadCursor db acc f)).storedModseq m.modseq with hlt | hle
    · exact hlt
    · exact absurd (hsync.shows m hm hknown hle) hshow
  rcases h with h | h | h
  · exact absurd h hq
  · exact absurd h hnew
  · exact h m hm hknown hlt hshow

theorem mem_flatten_of_head {bs : List (List ImapMessage)} {u : Uid}
    (h : u ∈ (bs.headD []).map ImapMessage.uid) : u ∈ bs.flatten.map ImapMessage.uid := by
  cases bs with
  | nil => cases h
  | cons b bs =>
    rw [List.flatten_cons, List.map_append]
    exact List.mem_append.mpr (.inl h)

/-- A first pass that committed nothing. -/
theorem ChangesFirst.settle_uncommitted (h : ChangesFirst db acc f mb order)
    (horder : order.Perm (mb.searchFrom (searchQuery (mb.plan (loadCursor db acc f)).afterUid)))
    (htr : mb.Tracked) (hsync : FlagsSynced db acc f mb) (hlater : mb.Later mb') {db₁ : Db}
    (hcur : loadCursor db₁ acc f = loadCursor db acc f)
    (hkeep : ∀ m ∈ mb.messages, db.Shows acc f m → db₁.Shows acc f m)
    (hsince : mb' = mb ∨ ∃ c, loadCursor db₁ acc f = some c ∧ 0 < c.lastModseq)
    (hr : Answers mb' r) (hdone : (folderPass db₁ acc f r).1 = .done) {m : ServerMessage}
    (hm : m ∈ mb'.messages) (hknown : Known db acc f (mb.plan (loadCursor db acc f)) m.uid) :
    (folderPass db₁ acc f r).2.db.Shows acc f m := by
  obtain ⟨n, hh, hpos, hnew⟩ := htr.newModseq (loadCursor db acc f)
  obtain ⟨hv, hstored⟩ := hlater.plan_eq (loadCursor db acc f)
  refine shows_of_done hr hdone (by rw [hcur, hv]; exact hknown.1) hm ?_
  rcases hsince with rfl | ⟨c, hc, hcpos⟩
  · by_cases hshow : db.Shows acc f m
    · exact .inl (hkeep m hm hshow)
    · right
      rw [hcur]
      obtain ⟨l, hl⟩ := search_of_done hr hdone
      rw [hcur] at hl
      have hin := mem_flatten_of_head (h.first (hr.search _ _ hl).1 (by rw [hnew]; omega) hsync hm
        hknown hshow)
      rcases Mailbox.listed_of_planned hin with hin | hin
      · exact .inl (horder.mem_iff.mp hin)
      · exact .inr hin
  · have hst : (mb.plan (loadCursor db acc f)).storedModseq = c.lastModseq := by
      have hsame := hknown.1
      rw [← hcur, hc] at hsame ⊢
      simp only [Mailbox.plan, passPlan] at hsame ⊢
      rw [hsame]
      rfl
    rcases Nat.lt_or_ge (mb.plan (loadCursor db acc f)).storedModseq m.modseq with hlt | hle
    · right; right
      rw [hcur]
      refine Mailbox.mem_changedBatch (hlater.condstore.trans htr.1) ?_ hm ?_
      · rw [hstored, hst]; exact hcpos
      · rw [hstored]; exact hlt
    · left
      have hbound := hsync.bounded
      rw [hh, Option.getD_some] at hbound
      have hold : m ∈ mb.messages := by
        rcases hlater.fresh n hh m hm with hold | hlt
        · exact hold
        · omega
      exact hkeep m hold (hsync.shows m hold hknown hle)

theorem ChangesFirst.flagsSettle (h : ChangesFirst db acc f mb order)
    (horder : order.Perm (mb.searchFrom (searchQuery (mb.plan (loadCursor db acc f)).afterUid))) :
    FlagsSettle db acc f mb order := by
  unfold FlagsSettle
  intro p htr hsync r hr ho mb' hlater hsince r' hr' hdone m hm hknown
  obtain ⟨n, hh, hpos, hnew⟩ := htr.newModseq (loadCursor db acc f)
  rcases folderPass_run acc f hr db ho with ⟨_, hrun⟩ | ⟨bs, ⟨hbs⟩, hrun⟩ | ⟨hv, _, _, _⟩
  · rw [hrun] at hsince hdone ⊢
    exact h.settle_uncommitted horder htr hsync hlater rfl (fun _ _ hs => hs) hsince hr' hdone hm
      hknown
  · by_cases hnil : bs = []
    · subst hnil
      rw [hrun] at hsince hdone ⊢
      exact h.settle_uncommitted horder htr hsync hlater (loadCursor_passPrelude db acc f f r)
        (fun _ hm₀ hs => Shows.passPrelude hr hm₀ hs) hsince hr' hdone hm hknown
    · -- The commit stored the highest mod-sequence, with all earlier changes applied.
      have hcur : loadCursor (folderPass db acc f r).2.db acc f =
          some ⟨p.uidValidity, max p.chunkCursor (maxUid bs.flatten), p.newModseq⟩ := by
        rw [hrun]; exact loadCursor_persistAll p _ hnil
      have hq : searchQuery p.afterUid ≠ 0 := by
        obtain ⟨init, last, rfl⟩ := List.eq_nil_or_concat bs |>.resolve_left hnil
        rw [List.concat_eq_append] at hrun
        have hc : (⟨last, ⟨p.uidValidity, max p.chunkCursor (maxUid (init ++ [last]).flatten),
            p.newModseq⟩, p.uidvalidityChanged && !(Lyra.persistAll acc f p (passStart db acc f r p)
            init).cleared, (folderPass db acc f r).2.db⟩ : Commit) ∈ (folderPass db acc f r).2.log := by
          rw [hrun, mem_persistAll_log]
          exact .inr ⟨last, init, [], rfl, rfl, rfl, rfl, rfl⟩
        exact query_ne_zero_of_commit hr hc
      have hshown : ∀ m₀ ∈ mb.messages, Known db acc f p m₀.uid →
          (folderPass db acc f r).2.db.Shows acc f m₀ := by
        intro m₀ hm₀ hk
        rw [hrun]
        refine Shows.persistAll hr hk.1 (drawnFrom_fetched hbs) hm₀ ?_
        by_cases hshow : db.Shows acc f m₀
        · exact .inl hshow
        · right
          have hfirst := h.first hq (by rw [hnew]; omega) hsync hm₀ hk hshow
          rw [((flatten_perm hbs.perm).map ImapMessage.uid).mem_iff]
          refine mem_flatten_of_head ?_
          rw [hbs.planned] at hfirst
          cases hf : hbs.fetched with
          | nil =>
            have := hbs.perm
            rw [hf] at this
            exact absurd (List.forall₂_nil_right_iff.mp this) hnil
          | cons b fs => rw [hf] at hfirst; exact hfirst
      have hplan' : (mb'.plan (loadCursor (folderPass db acc f r).2.db acc f)).uidvalidityChanged =
            false ∧ (mb'.plan (loadCursor (folderPass db acc f r).2.db acc f)).storedModseq = n := by
        obtain ⟨h1, h2⟩ := hlater.plan_eq (loadCursor (folderPass db acc f r).2.db acc f)
        rw [h1, h2, hcur]
        obtain ⟨h3, _, h4, _⟩ := mb.plan_resumed (loadCursor db acc f)
          (max p.chunkCursor (maxUid bs.flatten))
        exact ⟨h3, h4.trans hnew⟩
      refine shows_of_done hr' hdone hplan'.1 hm ?_
      rcases Nat.lt_or_ge n m.modseq with hlt | hle
      · refine .inr (.inr (Mailbox.mem_changedBatch (hlater.condstore.trans htr.1) ?_ hm ?_))
        · rw [hplan'.2]; exact hpos
        · rw [hplan'.2]; exact hlt
      · rcases hlater.fresh n hh m hm with hold | hlt
        · exact .inl (hshown m hold hknown)
        · omega
  · rw [hknown.1] at hv; cases hv

end Enough

/-! ## The condition is necessary -/

theorem FlagsSound.changesFirst {db : Db} {order : List Uid} (h : FlagsSound db acc f mb order)
    (horder : order.Perm (mb.searchFrom (searchQuery (mb.plan (loadCursor db acc f)).afterUid))) :
    ChangesFirst db acc f mb order := by
  unfold ChangesFirst
  intro p
  by_cases hq : searchQuery p.afterUid = 0
  · exact .inl hq
  by_cases hnew : p.newModseq = 0
  · exact .inr (.inl hnew)
  refine .inr (.inr fun m hm hknown hlt hshow => ?_)
  have hhigh := Mailbox.highestModseq_of_new (Nat.pos_of_ne_zero hnew)
  have hmax := mb.modseqBound _ hhigh m hm
  have hsame : ¬ (p.uidvalidityChanged = true ∧ mb.newUids p order = []) := by
    rw [hknown.1]; simp
  -- There is a change to save, so there is a batch.
  have hne : mb.plannedBatches p order ≠ [] := by
    intro hnil
    obtain ⟨_, hfin⟩ := List.append_eq_nil_iff.mp hnil
    unfold Mailbox.finalBatch at hfin
    rw [if_neg hsame] at hfin
    split at hfin
    · cases hfin
    · rw [if_pos (Nat.lt_of_lt_of_le hlt hmax)] at hfin
      cases hfin
  obtain ⟨bs, _, hbs, hrun, _, c, hc, hdb, hcur⟩ := cut_run horder hq hsame Nat.one_pos
    (List.length_pos_of_ne_nil hne)
  by_contra hnot
  have hshown := h _ (answers_replies horder 1) (enumerates_replies _ _ _) c hc
    (by rw [hcur]; exact Nat.pos_of_ne_zero hnew) m hm hknown hlt (by rw [hcur]; exact hmax)
  have hdrawn : DrawnFrom mb bs.flatten := by
    refine drawnFrom_perm hbs fun x hx => drawnFrom_planned p order x ?_
    obtain ⟨b, hb, hxb⟩ := List.mem_flatten.mp hx
    exact List.mem_flatten.mpr ⟨b, List.mem_of_mem_take hb, hxb⟩
  have hout : m.uid ∉ bs.flatten.map ImapMessage.uid := by
    rw [((flatten_perm hbs).map ImapMessage.uid).mem_iff]
    obtain ⟨b, rest, hcons⟩ := List.exists_cons_of_ne_nil hne
    rw [show mb.plannedBatches (mb.plan (loadCursor db acc f)) order = b :: rest from hcons]
    rw [hcons] at hnot
    simpa using hnot
  rw [hdb, hrun, Db.Shows, marks_persistAll p hknown.1 _ bs hm hdrawn, if_neg hout] at hshown
  exact hshow hshown

/-- Every committed mod-sequence has its flag changes applied, and an interrupted
pass followed by a complete one leaves every flag as on the server, exactly when
the first batch carries all outstanding changes. -/
theorem flags_sound_iff (db : Db) (acc : AccountId) (f : FolderId) (mb : Mailbox) (order : List Uid)
    (horder : order.Perm (mb.searchFrom (searchQuery (mb.plan (loadCursor db acc f)).afterUid))) :
    (FlagsSound db acc f mb order ∧ FlagsSettle db acc f mb order) ↔
      ChangesFirst db acc f mb order := by
  constructor
  · rintro ⟨hsound, _⟩
    exact hsound.changesFirst horder
  · intro h
    exact ⟨h.flagsSound, h.flagsSettle horder⟩

/-! ## Two messages, one of them just read -/

/-- A message that was marked `Seen` at mod-sequence 6, or not touched since 4. -/
def readMessage (u : Uid) (seen : Bool) : ServerMessage :=
  ⟨{ uid := u, flags := if seen then ["Seen".toList] else [] }, if seen then 6 else 4⟩

/-- UIDs 1 and 2. -/
def readMailbox (seen₁ seen₂ : Bool) : Mailbox where
  uidValidity := 1
  uidNext := 3
  messages := [readMessage 1 seen₁, readMessage 2 seen₂]
  highestModseq := some 6
  condstore := true
  ascending := by
    show [1, 2].Pairwise (· < ·)
    decide
  uidBounds := by
    intro m hm
    simp only [List.mem_cons, List.not_mem_nil, or_false] at hm
    rcases hm with rfl | rfl
    · exact ⟨Nat.one_pos, by show 1 < 3; decide⟩
    · exact ⟨Nat.two_pos, by show 2 < 3; decide⟩
  uidNextPos := by decide
  uidLimit := by decide
  modseqBound := by
    intro h hh
    cases hh
    cases seen₁ <;> cases seen₂ <;> decide

/-- Both messages stored unread, the cursor at UID 2 and mod-sequence 5. -/
def twoUnread : Db :=
  saveCursorInTx (upsertMessages ['a'] ['i'] (Db.fresh 0) [{ uid := 1 }, { uid := 2 }]).2 ['a'] ['i']
    ⟨1, 2, 5⟩

theorem flags_sound_last_read :
    FlagsSound twoUnread ['a'] ['i'] (readMailbox false true) [2] ∧
      FlagsSettle twoUnread ['a'] ['i'] (readMailbox false true) [2] := by
  refine (flags_sound_iff twoUnread ['a'] ['i'] (readMailbox false true) [2] (by decide)).mpr
    (.inr (.inr fun m hm _ hlt _ => ?_))
  have hm : m ∈ [readMessage 1 false, readMessage 2 true] := hm
  simp only [List.mem_cons, List.not_mem_nil, or_false] at hm
  rcases hm with rfl | rfl
  · exact absurd hlt (by decide)
  · decide

/-- The search lists the last message again; persisting it commits mod-sequence 6
while the change of message 1 is not applied. -/
theorem flags_unsound_reread : ¬ FlagsSound twoUnread ['a'] ['i'] (readMailbox true false) [2] := by
  intro h
  rcases h.changesFirst (by decide) with hq | hnew | hfirst
  · exact absurd hq (by decide)
  · exact absurd hnew (by decide)
  · have hshow : ¬ twoUnread.Shows ['a'] ['i'] (readMessage 1 true) := by
      unfold Db.Shows
      decide
    have := hfirst (readMessage 1 true) List.mem_cons_self ⟨by decide, by decide⟩ (by decide) hshow
    exact absurd this (by decide)

end Lyra
