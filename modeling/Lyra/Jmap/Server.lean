import Mathlib.Data.List.Perm.Basic
import Lyra.Jmap.Loop

/-!
# The JMAP server

An account at one moment is a list of mailboxes and a list of emails, newest first; an
email is in at least one mailbox (RFC 8621).  A history gives the account at every
moment, and an id that was destroyed does not come back.

Each request of a run is answered at its own moment (`Schedule`), so that the server
changes freely between any two of them.  A state token names the moment it was given
out for; the client sends tokens back and never looks into them.

`SeamAnswers` is what RFC 8620 asks of the answers: a page holds at least one and at most
`limit` ids when there are any at its position; `removed` covers what has left the query
and may name more, as long as an id that is still there is also in `added`;
`Email/changes` covers what was destroyed or changed up to its new state.
-/

namespace Lyra

/-! ## Accounts -/

structure JmapAccount where
  mailboxes : List MailboxId
  /-- Newest first. -/
  emails : List JmapEmail
  distinct : (emails.map JmapEmail.id).Nodup
  housed : ∀ e ∈ emails, ∃ mb ∈ mailboxes, mb ∈ e.mailboxIds.getD []

namespace JmapAccount

/-- The ids of a mailbox, in query order. -/
def members (a : JmapAccount) (mb : MailboxId) : List EmailId :=
  (a.emails.filter fun e => (e.mailboxIds.getD []).contains mb).map JmapEmail.id

/-- The email exists. -/
def Present (a : JmapAccount) (id : EmailId) : Prop := id ∈ a.emails.map JmapEmail.id

instance (a : JmapAccount) (id : EmailId) : Decidable (a.Present id) :=
  inferInstanceAs (Decidable (id ∈ a.emails.map JmapEmail.id))

/-- `Email/get`: the emails that exist. -/
def get (a : JmapAccount) (ids : List EmailId) : List JmapEmail :=
  a.emails.filter fun e => ids.contains e.id

theorem nodup_members (a : JmapAccount) (mb : MailboxId) : (a.members mb).Nodup :=
  a.distinct.sublist (List.filter_sublist.map _)

theorem present_of_mem {a : JmapAccount} {mb : MailboxId} {id : EmailId} (h : id ∈ a.members mb) :
    a.Present id := by
  obtain ⟨e, he, rfl⟩ := List.mem_map.mp h
  exact List.mem_map_of_mem (List.mem_filter.mp he).1

theorem present_iff (a : JmapAccount) (id : EmailId) :
    a.Present id ↔ ∃ mb ∈ a.mailboxes, id ∈ a.members mb := by
  constructor
  · intro h
    obtain ⟨e, he, rfl⟩ := List.mem_map.mp h
    obtain ⟨mb, hmb, hin⟩ := a.housed e he
    refine ⟨mb, hmb, List.mem_map_of_mem (List.mem_filter.mpr ⟨he, ?_⟩)⟩
    exact List.contains_iff_mem.mpr hin
  · rintro ⟨mb, -, h⟩
    exact present_of_mem h

theorem mem_ids_get (a : JmapAccount) (ids : List EmailId) (id : EmailId) :
    id ∈ (a.get ids).map JmapEmail.id ↔ id ∈ ids ∧ a.Present id := by
  simp only [get, Present, List.mem_map, List.mem_filter, List.contains_iff_mem]
  constructor
  · rintro ⟨e, ⟨he, hin⟩, rfl⟩
    exact ⟨hin, e, he, rfl⟩
  · rintro ⟨hin, e, he, rfl⟩
    exact ⟨e, ⟨he, hin⟩, rfl⟩

end JmapAccount

/-! ## Histories -/

structure History where
  account : Nat → JmapAccount
  /-- A destroyed id is never used again. -/
  gone : ∀ s t u id, s ≤ t → t ≤ u → (account s).Present id → ¬ (account t).Present id →
    ¬ (account u).Present id
  /-- The account stays within some size, and positions within an `i32`. -/
  size : Nat
  bounded : ∀ t, (account t).emails.length ≤ size
  fits : size < 2 ^ 31 - 1

theorem History.present_between (h : History) {s t u : Nat} {id : EmailId} (hst : s ≤ t)
    (htu : t ≤ u) (hs : (h.account s).Present id) (hu : (h.account u).Present id) :
    (h.account t).Present id := by
  by_contra hn
  exact h.gone s t u id hst htu hs hn hu

theorem History.length_members (h : History) (t : Nat) (mb : MailboxId) :
    ((h.account t).members mb).length ≤ h.size := by
  rw [JmapAccount.members, List.length_map]
  exact Nat.le_trans (List.length_filter_le _ _) (h.bounded t)

/-- When each request of a run is answered. -/
structure Schedule where
  start : Nat
  mailboxes : Nat
  changes : Nat → Nat
  updated : Nat → Nat
  seed : Nat
  /-- The first mailbox's turn. -/
  folders : Nat
  delta : MailboxId → Nat
  query : MailboxId → Nat → Nat
  get : MailboxId → Nat → Nat
  added : MailboxId → Nat → Nat
  finish : Nat
  start_le : start ≤ mailboxes
  mailboxes_le : ∀ k, mailboxes ≤ changes k
  changes_le : ∀ k j, changes k ≤ updated j
  updated_le : ∀ j, updated j ≤ folders
  mailboxes_le_seed : mailboxes ≤ seed
  seed_le : seed ≤ folders
  folders_le : ∀ mb, folders ≤ delta mb
  delta_le : ∀ mb, delta mb ≤ query mb 0
  query_le : ∀ mb k, query mb k ≤ get mb k
  get_le : ∀ mb k, get mb k ≤ query mb (k + 1)
  delta_le_added : ∀ mb k, delta mb ≤ added mb k
  get_le_finish : ∀ mb k, get mb k ≤ finish
  added_le_finish : ∀ mb k, added mb k ≤ finish

/-! ## Answers -/

/-- The page that a full query asks for in its `k`-th round. -/
def Seam.page (seam : Seam) (mb : MailboxId) (k : Nat) : EmailPage :=
  seam.queryEmailsPage mb (wirePosition (queryPage * k)) queryPage

/-- The pages of one mailbox. -/
structure PagesAnswer (h : History) (sch : Schedule) (seam : Seam) (mb : MailboxId) : Prop where
  ids : ∀ k, queryPage * k < 2 ^ 31 - 1 → ∃ n, 0 < n ∧ n ≤ queryPage ∧
    (seam.page mb k).ids = (((h.account (sch.query mb k)).members mb).drop (queryPage * k)).take n
  emails : ∀ k, queryPage * k < 2 ^ 31 - 1 →
    (seam.page mb k).emails.Perm ((h.account (sch.get mb k)).get (seam.page mb k).ids)
  queryState : ∀ k, queryPage * k < 2 ^ 31 - 1 →
    (seam.page mb k).queryState = some (sch.query mb k)
  /-- An empty page of two separate requests carries no state. -/
  emailState : ∀ k, queryPage * k < 2 ^ 31 - 1 →
    (seam.page mb k).emailState = some (sch.get mb k) ∨
      ((seam.page mb k).emailState = none ∧ (seam.page mb k).ids = [])

/-- `Email/changes` from `since`, answered at `now`. -/
structure ChangesAnswer (h : History) (now since : Nat) (resp : EmailChangesResponse) : Prop where
  since_le : since ≤ resp.newState
  le_now : resp.newState ≤ now
  more : resp.hasMoreChanges = true → since < resp.newState
  last : resp.hasMoreChanges = false → resp.newState = now
  destroyed_gone : ∀ id ∈ resp.destroyed, ¬ (h.account resp.newState).Present id ∧
    ∃ s, s ≤ resp.newState ∧ (h.account s).Present id
  destroyed : ∀ id, (h.account since).Present id → ¬ (h.account resp.newState).Present id →
    id ∈ resp.destroyed
  updated_present : ∀ id ∈ resp.updated, (h.account resp.newState).Present id
  updated : ∀ e ∈ (h.account since).emails, ∀ e' ∈ (h.account resp.newState).emails,
    e.id = e'.id → e ≠ e' → e.id ∈ resp.updated

/-- `Email/queryChanges` of a mailbox from `since`, answered at `now`. -/
structure DeltaAnswer (h : History) (mb : MailboxId) (now since : Nat)
    (changes : EmailQueryChanges) : Prop where
  since_le : since ≤ now
  newQueryState : changes.newQueryState = some now
  removed : ∀ id ∈ (h.account since).members mb, id ∉ (h.account now).members mb →
    id ∈ changes.removedIds
  removed_again : ∀ id ∈ changes.removedIds, id ∈ (h.account now).members mb →
    id ∈ changes.addedIds
  added : ∀ id ∈ (h.account now).members mb, id ∉ (h.account since).members mb →
    id ∈ changes.addedIds
  added_held : ∀ id ∈ changes.addedIds, id ∈ (h.account now).members mb

structure SeamAnswers (h : History) (sch : Schedule) (seam : Seam) : Prop where
  mailboxes : seam.mailboxes.map JmapMailbox.id = (h.account sch.mailboxes).mailboxes
  distinct : (seam.mailboxes.map JmapMailbox.id).Nodup
  parents : ∀ mb ∈ seam.mailboxes, ∀ parent, mb.parentId = some parent →
    parent ∈ seam.mailboxes.map JmapMailbox.id
  changes : ∀ k since resp, seam.changesEmail k since = some resp →
    ChangesAnswer h (sch.changes k) since resp
  pages : ∀ mb, PagesAnswer h sch seam mb
  seed : ∀ mb, (seam.queryEmailsPage mb 0 1).emailState = some sch.seed ∨
    (seam.queryEmailsPage mb 0 1).emailState = none
  delta : ∀ mb since changes, seam.queryEmailChanges mb since = some changes →
    DeltaAnswer h mb (sch.delta mb) since changes
  getUpdated : ∀ k ids, (seam.getUpdated k ids).1.Perm ((h.account (sch.updated k)).get ids)
  getAdded : ∀ mb k ids, (seam.getAdded mb k ids).1.Perm ((h.account (sch.added mb k)).get ids)
  getAddedState : ∀ mb k ids, (seam.getAdded mb k ids).2 = some (sch.added mb k)

/-! ## A server that answers -/

/-- The answers of a server that fills its pages and calculates all changes. -/
def serve (h : History) (sch : Schedule) : Seam where
  mailboxes := (h.account sch.mailboxes).mailboxes.map fun mb => { id := mb, name := mb }
  changesEmail := fun k since =>
    let old := h.account since
    let new := h.account (sch.changes k)
    if since ≤ sch.changes k then
      some
        { updated := (old.emails.filter fun e => new.emails.any fun e' =>
            decide (e.id = e'.id ∧ e ≠ e')).map JmapEmail.id
          destroyed := (old.emails.filter fun e => decide (¬ new.Present e.id)).map JmapEmail.id
          newState := sch.changes k
          hasMoreChanges := false }
    else none
  queryEmailChanges := fun mb since =>
    let old := (h.account since).members mb
    let new := (h.account (sch.delta mb)).members mb
    if since ≤ sch.delta mb then
      some
        { addedIds := new.filter fun id => !old.contains id
          removedIds := old.filter fun id => !new.contains id
          newQueryState := some (sch.delta mb) }
    else none
  queryEmailsPage := fun mb position limit =>
    let k := position / queryPage
    let ids := (((h.account (sch.query mb k)).members mb).drop position).take limit
    { ids := ids
      emails := (h.account (sch.get mb k)).get ids
      queryState := some (sch.query mb k)
      emailState := if limit = 1 then some sch.seed else some (sch.get mb k) }
  getUpdated := fun k ids => ((h.account (sch.updated k)).get ids, some (sch.updated k))
  getAdded := fun mb k ids => ((h.account (sch.added mb k)).get ids, some (sch.added mb k))

section Serve

variable (h : History) (sch : Schedule)

theorem page_serve (mb : MailboxId) {k : Nat} (hk : queryPage * k < 2 ^ 31 - 1) :
    (serve h sch).page mb k =
      { ids := (((h.account (sch.query mb k)).members mb).drop (queryPage * k)).take queryPage
        emails := (h.account (sch.get mb k)).get
          ((((h.account (sch.query mb k)).members mb).drop (queryPage * k)).take queryPage)
        queryState := some (sch.query mb k)
        emailState := some (sch.get mb k) } := by
  have hwire : wirePosition (queryPage * k) = queryPage * k := by
    unfold wirePosition
    omega
  have hdiv : queryPage * k / queryPage = k := Nat.mul_div_cancel_left k (by decide)
  simp only [Seam.page, serve, hwire, hdiv]
  rw [if_neg (by decide)]

theorem pagesAnswer_serve (mb : MailboxId) : PagesAnswer h sch (serve h sch) mb where
  ids := by
    intro k hk
    rw [page_serve h sch mb hk]
    exact ⟨queryPage, by decide, Nat.le_refl _, rfl⟩
  emails := by
    intro k hk
    rw [page_serve h sch mb hk]
  queryState := by
    intro k hk
    rw [page_serve h sch mb hk]
  emailState := by
    intro k hk
    rw [page_serve h sch mb hk]
    exact .inl rfl

theorem changesAnswer_serve {k since : Nat} {resp : EmailChangesResponse}
    (hr : (serve h sch).changesEmail k since = some resp) :
    ChangesAnswer h (sch.changes k) since resp := by
  simp only [serve] at hr
  split at hr
  case isFalse => cases hr
  case isTrue hle =>
    cases hr
    refine ⟨hle, Nat.le_refl _, nofun, fun _ => rfl, ?_, ?_, ?_, ?_⟩
    · intro id hid
      obtain ⟨e, he, rfl⟩ := List.mem_map.mp hid
      obtain ⟨he, hgone⟩ := List.mem_filter.mp he
      exact ⟨of_decide_eq_true hgone, since, hle, List.mem_map_of_mem he⟩
    · intro id hwas hgone
      obtain ⟨e, he, rfl⟩ := List.mem_map.mp hwas
      exact List.mem_map_of_mem (List.mem_filter.mpr ⟨he, decide_eq_true hgone⟩)
    · intro id hid
      obtain ⟨e, he, rfl⟩ := List.mem_map.mp hid
      obtain ⟨-, hany⟩ := List.mem_filter.mp he
      obtain ⟨e', he', heq⟩ := List.any_eq_true.mp hany
      rw [(of_decide_eq_true heq).1]
      exact List.mem_map_of_mem he'
    · intro e he e' he' hid hne
      refine List.mem_map_of_mem (List.mem_filter.mpr ⟨he, List.any_eq_true.mpr ?_⟩)
      exact ⟨e', he', decide_eq_true ⟨hid, hne⟩⟩

theorem deltaAnswer_serve {mb : MailboxId} {since : Nat} {changes : EmailQueryChanges}
    (hc : (serve h sch).queryEmailChanges mb since = some changes) :
    DeltaAnswer h mb (sch.delta mb) since changes := by
  simp only [serve] at hc
  split at hc
  case isFalse => cases hc
  case isTrue hle =>
    cases hc
    refine ⟨hle, rfl, ?_, ?_, ?_, ?_⟩
    · intro id hold hnew
      exact List.mem_filter.mpr ⟨hold, by simpa using hnew⟩
    · intro id hid hnew
      have := (List.mem_filter.mp hid).2
      simp [hnew] at this
    · intro id hnew hold
      exact List.mem_filter.mpr ⟨hnew, by simpa using hold⟩
    · intro id hid
      exact (List.mem_filter.mp hid).1

theorem seamAnswers_serve (hdistinct : (h.account sch.mailboxes).mailboxes.Nodup) :
    SeamAnswers h sch (serve h sch) where
  mailboxes := by simp [serve, Function.comp_def]
  distinct := by
    simpa [serve, Function.comp_def] using hdistinct
  parents := by
    intro mb hmb parent hparent
    obtain ⟨m, -, rfl⟩ := List.mem_map.mp hmb
    cases hparent
  changes := fun k since resp hr => changesAnswer_serve h sch hr
  pages := pagesAnswer_serve h sch
  seed := fun mb => .inl rfl
  delta := fun mb since changes hc => deltaAnswer_serve h sch hc
  getUpdated := fun _ _ => List.Perm.refl _
  getAdded := fun _ _ _ => List.Perm.refl _
  getAddedState := fun _ _ _ => rfl

end Serve

end Lyra
