import Lyra.Jmap.Server

/-!
# Completeness of a full query

`full_folder_query` asks for positions `100 k` to `100 k + 99` of the mailbox, each page at
its own moment, and stops at the first page of fewer than 100 ids, whose query state it
commits.  The server may return fewer ids than asked for, and the mailbox may shift
between two pages.

* `full_query_complete_iff`: the committed state leaves nothing behind exactly when every
  message of the mailbox stood, at some page request, among the positions returned;
* `full_query_misses`: a server that returns one id per page.
-/

namespace Lyra

open Lyra.Lib Fallible

/-! ## What the pages do -/

/-- The pages from the `k`-th to the `last`-th have been persisted. -/
structure PagesDone (seam : Seam) (acc : AccountId) (folder : FolderId) (mb : MailboxId)
    (k last : Nat) (s t : SyncRun) : Prop where
  le : k ≤ last
  full : ∀ j, k ≤ j → j < last → queryPage ≤ (seam.page mb j).ids.length
  short : (seam.page mb last).ids.length < queryPage
  stored : ∀ id, t.db.Stored acc id ↔ s.db.Stored acc id ∨
    ∃ j, k ≤ j ∧ j ≤ last ∧ id ∈ (seam.page mb j).emails.map JmapEmail.id
  refetched : ∀ id, id ∈ t.refetched ↔ id ∈ s.refetched ∨
    ∃ j, k ≤ j ∧ j ≤ last ∧ id ∈ (seam.page mb j).ids
  removed : t.removed = s.removed
  noted : ∀ x, s.newEmailState = some x → t.newEmailState = some x
  cursor : loadJmapCursor t.db acc folder =
    (seam.page mb last).queryState.or (loadJmapCursor s.db acc folder)

/-- The state after one page. -/
def SyncRun.withPage (s : SyncRun) (acc : AccountId) (folder : FolderId) (page : EmailPage)
    (qs : Option Nat) (calls : Nat) : SyncRun where
  calls := calls
  db := (persistJmapFolderBatch s.db acc folder page.emails qs).2
  refetched := page.ids ++ s.refetched
  removed := s.removed
  newEmailState := s.newEmailState.or page.emailState

theorem stored_withPage (s : SyncRun) (acc : AccountId) (folder : FolderId) (page : EmailPage)
    (qs : Option Nat) (n : Nat) (id : EmailId) :
    (s.withPage acc folder page qs n).db.Stored acc id ↔
      s.db.Stored acc id ∨ id ∈ page.emails.map JmapEmail.id :=
  stored_persistJmapFolderBatch _ _ _ _ _ id

theorem loadJmapCursor_withPage (s : SyncRun) (acc : AccountId) (folder : FolderId)
    (page : EmailPage) (qs : Option Nat) (n : Nat) :
    loadJmapCursor (s.withPage acc folder page qs n).db acc folder =
      qs.or (loadJmapCursor s.db acc folder) :=
  loadJmapCursor_persistJmapFolderBatch _ _ _ _ _

theorem newEmailState_withPage {s : SyncRun} {x : Nat} (hx : s.newEmailState = some x)
    (acc : AccountId) (folder : FolderId) (page : EmailPage) (qs : Option Nat) (n : Nat) :
    (s.withPage acc folder page qs n).newEmailState = some x := by
  rw [SyncRun.withPage, hx, Option.some_or]

theorem exists_between_self {P : Nat → Prop} {k : Nat} : (∃ j, k ≤ j ∧ j ≤ k ∧ P j) ↔ P k := by
  constructor
  · rintro ⟨j, hkj, hjk, hj⟩
    obtain rfl : j = k := by omega
    exact hj
  · intro hk
    exact ⟨k, Nat.le_refl _, Nat.le_refl _, hk⟩

theorem exists_between_succ {P : Nat → Prop} {k n : Nat} (hkn : k + 1 ≤ n) :
    (∃ j, k ≤ j ∧ j ≤ n ∧ P j) ↔ P k ∨ ∃ j, k + 1 ≤ j ∧ j ≤ n ∧ P j := by
  constructor
  · rintro ⟨j, hkj, hjn, hj⟩
    rcases Nat.lt_or_eq_of_le hkj with hlt | rfl
    · exact .inr ⟨j, hlt, hjn, hj⟩
    · exact .inl hj
  · rintro (hk | ⟨j, hkj, hjn, hj⟩)
    · exact ⟨k, Nat.le_refl _, by omega, hk⟩
    · exact ⟨j, by omega, hjn, hj⟩

section Pages

variable {fails : Nat → Option SyncError} {seam : Seam} {acc : AccountId} {folder : FolderId}
  {mb : MailboxId}

/-- One round: a short page is the last and commits its state. -/
theorem returns_queryPages {fuel k : Nat} {s t : SyncRun} {r : Nat × Nat}
    (h : Returns (queryPages fails seam acc folder mb (fuel + 1) k) s r t) :
    ((seam.page mb k).ids.length < queryPage ∧
        ∃ n, t = s.withPage acc folder (seam.page mb k) (seam.page mb k).queryState n) ∨
      (queryPage ≤ (seam.page mb k).ids.length ∧ ∃ n r',
        Returns (queryPages fails seam acc folder mb fuel (k + 1))
          (s.withPage acc folder (seam.page mb k) none n) r' t) := by
  unfold queryPages at h
  obtain ⟨_, s₁, hawait, h⟩ := returns_bind.mp h
  obtain ⟨-, rfl⟩ := returns_awaitCall.mp hawait
  obtain ⟨_, s₂, hmod, h⟩ := returns_bind.mp h
  obtain rfl := returns_modify.mp hmod
  change Returns (if (seam.page mb k).ids.length < queryPage then _ else _) _ _ _ at h
  split at h
  case isTrue hshort =>
    obtain ⟨n, rfl⟩ := returns_persistAndDownload h
    exact .inl ⟨hshort, n, rfl⟩
  case isFalse hfull =>
    obtain ⟨r₁, s₃, hpersist, h⟩ := returns_bind.mp h
    obtain ⟨n, rfl⟩ := returns_persistAndDownload hpersist
    obtain ⟨r₂, s₄, hrest, h⟩ := returns_bind.mp h
    obtain ⟨-, rfl⟩ := returns_pure.mp h
    exact .inr ⟨Nat.le_of_not_lt hfull, n, r₂, hrest⟩

theorem pagesDone_of_returns {fuel k : Nat} {s t : SyncRun} {r : Nat × Nat}
    (h : Returns (queryPages fails seam acc folder mb fuel k) s r t) :
    ∃ last, PagesDone seam acc folder mb k last s t := by
  induction fuel generalizing k s r with
  | zero => cases h
  | succ fuel ih =>
    rcases returns_queryPages h with ⟨hshort, n, rfl⟩ | ⟨hfull, n, r', hrest⟩
    · refine ⟨k, Nat.le_refl _, fun j hj hjk => by omega, hshort, ?_, ?_, rfl, ?_, ?_⟩
      · intro id
        rw [exists_between_self]
        exact stored_withPage ..
      · intro id
        rw [exists_between_self]
        exact List.mem_append.trans or_comm
      · exact fun x hx => newEmailState_withPage hx ..
      · exact loadJmapCursor_withPage ..
    · obtain ⟨last, hdone⟩ := ih hrest
      have hle := hdone.le
      refine ⟨last, by omega, ?_, hdone.short, ?_, ?_, hdone.removed, ?_, ?_⟩
      · intro j hkj hjl
        rcases Nat.lt_or_eq_of_le hkj with hlt | rfl
        · exact hdone.full j hlt hjl
        · exact hfull
      · intro id
        rw [hdone.stored id, exists_between_succ hle, ← or_assoc]
        exact or_congr (stored_withPage ..) Iff.rfl
      · intro id
        rw [hdone.refetched id, exists_between_succ hle, ← or_assoc]
        exact or_congr (List.mem_append.trans or_comm) Iff.rfl
      · exact fun x hx => hdone.noted x (newEmailState_withPage hx ..)
      · rw [hdone.cursor, loadJmapCursor_withPage, Option.none_or]

end Pages

/-! ## The property and the condition -/

/-- Whatever the stored query state shows of the mailbox is stored, or has left the
mailbox for good and is reported by every later `Email/queryChanges`. -/
def FullQueryComplete (h : History) (acc : AccountId) (folder : FolderId) (mb : MailboxId)
    (now : Nat) (db : Db) : Prop :=
  ∀ q, loadJmapCursor db acc folder = some q → ∀ id ∈ (h.account q).members mb,
    db.Stored acc id ∨ ∀ t, now ≤ t → id ∉ (h.account t).members mb

/-- At the `k`-th page request the message stands among the positions returned. -/
def OnPage (h : History) (sch : Schedule) (seam : Seam) (mb : MailboxId) (k : Nat)
    (id : EmailId) : Prop :=
  let mailbox := (h.account (sch.query mb k)).members mb
  id ∈ mailbox ∧ queryPage * k ≤ mailbox.idxOf id ∧
    mailbox.idxOf id < queryPage * k + (seam.page mb k).ids.length

/-- The first page with fewer ids than asked for. -/
def LastPage (seam : Seam) (mb : MailboxId) (last : Nat) : Prop :=
  (∀ j, j < last → queryPage ≤ (seam.page mb j).ids.length) ∧
    (seam.page mb last).ids.length < queryPage

/-- Every message of the mailbox at the last page request that is in the mailbox later on
is stored already or stood among the positions of some page. -/
def NoGap (h : History) (sch : Schedule) (seam : Seam) (acc : AccountId) (mb : MailboxId)
    (db : Db) : Prop :=
  ∀ last, LastPage seam mb last → ∀ id ∈ (h.account (sch.query mb last)).members mb,
    (∃ t, sch.finish ≤ t ∧ id ∈ (h.account t).members mb) →
      db.Stored acc id ∨ ∃ k, k ≤ last ∧ OnPage h sch seam mb k id

section Complete

variable {h : History} {sch : Schedule} {seam : Seam} {mb : MailboxId}

theorem length_page_le (hans : PagesAnswer h sch seam mb) {k : Nat}
    (hk : queryPage * k < 2 ^ 31 - 1) :
    queryPage * k + (seam.page mb k).ids.length ≤ h.size ∨ (seam.page mb k).ids = [] := by
  obtain ⟨n, -, -, hids⟩ := hans.ids k hk
  have hlen := h.length_members (sch.query mb k) mb
  rw [hids]
  rcases Nat.lt_or_ge (queryPage * k) ((h.account (sch.query mb k)).members mb).length with hlt | hge
  · left
    rw [List.length_take, List.length_drop]
    omega
  · right
    rw [List.drop_eq_nil_of_le hge, List.take_nil]

theorem wire_of_full (hans : PagesAnswer h sch seam mb) {k : Nat}
    (hfull : ∀ j, j < k → queryPage ≤ (seam.page mb j).ids.length) :
    queryPage * k < 2 ^ 31 - 1 := by
  have hfits := h.fits
  induction k with
  | zero => omega
  | succ k ih =>
    have hk := ih fun j hj => hfull j (by omega)
    have hlen := hfull k (by omega)
    rcases length_page_le hans hk with hle | hnil
    · rw [Nat.mul_succ]
      omega
    · rw [hnil] at hlen
      simp [queryPage] at hlen

theorem mem_page_iff (hans : PagesAnswer h sch seam mb) {k : Nat}
    (hk : queryPage * k < 2 ^ 31 - 1) (id : EmailId) :
    id ∈ (seam.page mb k).ids ↔ OnPage h sch seam mb k id := by
  obtain ⟨n, -, -, hids⟩ := hans.ids k hk
  have hnodup := (h.account (sch.query mb k)).nodup_members mb
  unfold OnPage
  rw [hids, mem_take_drop_iff_idxOf hnodup, List.length_take, List.length_drop]
  constructor
  · rintro ⟨hid, hlo, hhi⟩
    have := List.idxOf_lt_length_iff.mpr hid
    exact ⟨hid, hlo, by omega⟩
  · rintro ⟨hid, hlo, hhi⟩
    exact ⟨hid, hlo, by omega⟩

/-- A listed message that is on the server later on has been fetched. -/
theorem fetched_of_onPage (hans : PagesAnswer h sch seam mb) {k : Nat}
    (hk : queryPage * k < 2 ^ 31 - 1) {id : EmailId} (hid : OnPage h sch seam mb k id) {t : Nat}
    (ht : sch.finish ≤ t) (hlater : (h.account t).Present id) :
    id ∈ (seam.page mb k).emails.map JmapEmail.id := by
  rw [((hans.emails k hk).map JmapEmail.id).mem_iff, JmapAccount.mem_ids_get]
  refine ⟨(mem_page_iff hans hk id).mpr hid, ?_⟩
  exact h.present_between (sch.query_le mb k) (Nat.le_trans (sch.get_le_finish mb k) ht)
    (JmapAccount.present_of_mem hid.1) hlater

theorem onPage_of_fetched (hans : PagesAnswer h sch seam mb) {k : Nat}
    (hk : queryPage * k < 2 ^ 31 - 1) {id : EmailId}
    (hid : id ∈ (seam.page mb k).emails.map JmapEmail.id) : OnPage h sch seam mb k id := by
  rw [((hans.emails k hk).map JmapEmail.id).mem_iff, JmapAccount.mem_ids_get] at hid
  exact (mem_page_iff hans hk id).mp hid.1

/-- When a full query returns, its committed state leaves no message behind exactly when
no message of the mailbox fell between its pages. -/
theorem full_query_complete_iff (h : History) (sch : Schedule) (seam : Seam) (acc : AccountId)
    (folder : FolderId) (mb : MailboxId) (fails : Nat → Option SyncError) (fuel : Nat)
    (hans : PagesAnswer h sch seam mb) (s t : SyncRun) (r : Nat × Nat)
    (hrun : Returns (fullFolderQuery fails seam acc fuel folder mb) s r t) :
    FullQueryComplete h acc folder mb sch.finish t.db ↔ NoGap h sch seam acc mb s.db := by
  obtain ⟨last, hdone⟩ := pagesDone_of_returns hrun
  have hfull : ∀ j, j < last → queryPage ≤ (seam.page mb j).ids.length :=
    fun j hj => hdone.full j (Nat.zero_le _) hj
  have hwire : ∀ j, j ≤ last → queryPage * j < 2 ^ 31 - 1 := fun j hj =>
    wire_of_full hans fun i hi => hfull i (by omega)
  have hcursor : loadJmapCursor t.db acc folder = some (sch.query mb last) := by
    rw [hdone.cursor, hans.queryState last (hwire last (Nat.le_refl _))]
    rfl
  constructor
  · intro hcomplete last' hlast id hid hlater
    -- the loop stopped at the first short page
    obtain rfl : last' = last := by
      rcases Nat.lt_trichotomy last' last with hlt | rfl | hlt
      · have := hfull last' hlt
        have := hlast.2
        omega
      · rfl
      · have := hlast.1 last hlt
        have := hdone.short
        omega
    rcases hcomplete _ hcursor id hid with hstored | hleft
    · rcases (hdone.stored id).mp hstored with hbefore | ⟨k, -, hk, hfetched⟩
      · exact .inl hbefore
      · exact .inr ⟨k, hk, onPage_of_fetched hans (hwire k hk) hfetched⟩
    · obtain ⟨t', ht', hid'⟩ := hlater
      exact absurd hid' (hleft t' ht')
  · intro hgap q hq id hid
    rw [hcursor] at hq
    cases hq
    by_cases hlater : ∃ t', sch.finish ≤ t' ∧ id ∈ (h.account t').members mb
    · left
      rw [hdone.stored]
      rcases hgap last ⟨hfull, hdone.short⟩ id hid hlater with hbefore | ⟨k, hk, hon⟩
      · exact .inl hbefore
      · obtain ⟨t', ht', hid'⟩ := hlater
        exact .inr ⟨k, Nat.zero_le _, hk,
          fetched_of_onPage hans (hwire k hk) hon ht' (JmapAccount.present_of_mem hid')⟩
    · right
      intro t' ht' hid'
      exact hlater ⟨t', ht', hid'⟩

end Complete

/-! ## A mailbox that stays as it is -/

/-- Nothing happens on the server. -/
def History.still (a : JmapAccount) (hfits : a.emails.length < 2 ^ 31 - 1) : History where
  account := fun _ => a
  gone := fun _ _ _ _ _ _ hs ht _ => ht hs
  size := a.emails.length
  bounded := fun _ => Nat.le_refl _
  fits := hfits

def Schedule.still : Schedule where
  start := 0
  mailboxes := 0
  changes := fun _ => 0
  updated := fun _ => 0
  seed := 0
  folders := 0
  delta := fun _ => 0
  query := fun _ _ => 0
  get := fun _ _ => 0
  added := fun _ _ => 0
  finish := 0
  start_le := Nat.le_refl _
  mailboxes_le := fun _ => Nat.le_refl _
  changes_le := fun _ _ => Nat.le_refl _
  updated_le := fun _ => Nat.le_refl _
  mailboxes_le_seed := Nat.le_refl _
  seed_le := Nat.le_refl _
  folders_le := fun _ => Nat.le_refl _
  delta_le := fun _ => Nat.le_refl _
  query_le := fun _ _ => Nat.le_refl _
  get_le := fun _ _ => Nat.le_refl _
  delta_le_added := fun _ _ => Nat.le_refl _
  get_le_finish := fun _ _ => Nat.le_refl _
  added_le_finish := fun _ _ => Nat.le_refl _

/-- Answers of a server that returns at most `clamp` ids per page and calculates no
changes. -/
def stillSeam (a : JmapAccount) (clamp : Nat) : Seam where
  mailboxes := a.mailboxes.map fun mb => { id := mb, name := mb }
  changesEmail := fun _ _ => none
  queryEmailChanges := fun _ _ => none
  queryEmailsPage := fun mb position limit =>
    let ids := ((a.members mb).drop position).take (min clamp limit)
    ⟨ids, a.get ids, some 0, some 0⟩
  getUpdated := fun _ ids => (a.get ids, some 0)
  getAdded := fun _ _ ids => (a.get ids, some 0)

theorem pagesAnswer_stillSeam (a : JmapAccount) (hfits : a.emails.length < 2 ^ 31 - 1)
    {clamp : Nat} (hclamp : 0 < clamp) (mb : MailboxId) :
    PagesAnswer (History.still a hfits) Schedule.still (stillSeam a clamp) mb where
  ids := by
    intro k hk
    refine ⟨min clamp queryPage, ?_, Nat.min_le_right _ _, ?_⟩
    · have : 0 < queryPage := by decide
      omega
    · show ((a.members mb).drop (wirePosition (queryPage * k))).take _ = _
      rw [show wirePosition (queryPage * k) = queryPage * k by unfold wirePosition; omega]
      rfl
  emails := fun _ _ => List.Perm.refl _
  queryState := fun _ _ => rfl
  emailState := fun _ _ => .inl rfl

/-- Two messages in one mailbox. -/
def twoEmails : JmapAccount where
  mailboxes := [['m']]
  emails := [{ id := ['1'], mailboxIds := some [['m']] }, { id := ['2'], mailboxIds := some [['m']] }]
  distinct := by decide
  housed := by decide

/-- A server that fills its pages: the query finds both messages. -/
theorem full_query_two :
    ∃ t, Returns (fullFolderQuery (fun _ => none) (stillSeam twoEmails 100) ['a'] 1 ['F'] ['m'])
        { db := Db.fresh 0 } (2, 0) t ∧
      FullQueryComplete (History.still twoEmails (by decide)) ['a'] ['F'] ['m'] 0 t.db := by
  refine ⟨_, rfl, ?_⟩
  apply (full_query_complete_iff (History.still twoEmails (by decide)) Schedule.still
    (stillSeam twoEmails 100) ['a'] ['F'] ['m'] (fun _ => none) 1
    (pagesAnswer_stillSeam twoEmails (by decide) (by decide) ['m']) { db := Db.fresh 0 } _ (2, 0)
      rfl).mpr
  intro last _ id hid _
  refine .inr ⟨0, Nat.zero_le _, hid, Nat.zero_le _, ?_⟩
  have hid' : id ∈ [['1'], ['2']] := hid
  rcases List.mem_cons.mp hid' with rfl | hid'
  · decide
  · obtain rfl := List.mem_singleton.mp hid'
    decide

/-- A server that returns one id per page: the first page is taken for the last, and the
second message is neither stored nor reported later. -/
theorem full_query_misses :
    ¬ ∀ (h : History) (sch : Schedule) (seam : Seam) (acc : AccountId) (folder : FolderId)
      (mb : MailboxId) (fails : Nat → Option SyncError) (fuel : Nat) (s t : SyncRun) (r : Nat × Nat),
      PagesAnswer h sch seam mb → Returns (fullFolderQuery fails seam acc fuel folder mb) s r t →
        FullQueryComplete h acc folder mb sch.finish t.db := by
  intro h
  have hc := h (History.still twoEmails (by decide)) Schedule.still (stillSeam twoEmails 1) ['a']
    ['F'] ['m'] (fun _ => none) 1 { db := Db.fresh 0 } _ (1, 0)
    (pagesAnswer_stillSeam twoEmails (by decide) (by decide) ['m']) rfl
  rcases hc 0 rfl ['2'] (by decide) with hstored | hleft
  · exact absurd hstored (by decide)
  · exact hleft 0 (Nat.le_refl _) (by decide)

end Lyra
