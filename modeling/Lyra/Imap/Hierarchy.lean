import Mathlib.Logic.Relation
import Lyra.Imap.AccountPass
import Lyra.Lib.StableSort

/-!
# The folder tree of an IMAP account

A sync run upserts the listed mailboxes by depth, which each mailbox counts with its own
delimiter, and finds the parent of each by its path among the stored rows.

* `ShorterParents`: every stored parent has a shorter path, kept by every upsert;
* `upsertAll`: a pass whose upserts all succeed;
* `wellPlaced_iff`: the tree is right exactly if every listed parent is stored before or written
  before, and the last write of a path names it;
* `inOrder_of_oneDelimiter`: one delimiter for all is enough.
-/

namespace Lyra

open Lyra.Lib

/-! ## Paths -/

def ImapFolder.depth (f : ImapFolder) : Nat := imapFolderDepth f.name f.delimiter

def ImapFolder.parentPath (f : ImapFolder) : Option Text :=
  (splitImapFolderPath f.name f.delimiter).1

theorem rsplitOnce_eq_some {delim s parent leaf : Text} (h : rsplitOnce delim s = some (parent, leaf)) :
    s = parent ++ delim ++ leaf := by
  induction s generalizing parent with
  | nil =>
    unfold rsplitOnce at h
    split at h
    case isTrue hnil =>
      cases h
      simpa using hnil
    case isFalse => cases h
  | cons c s ih =>
    unfold rsplitOnce at h
    split at h
    case h_1 p l hsplit =>
      cases h
      rw [ih hsplit]
      rfl
    case h_2 =>
      split at h
      case isTrue hstarts =>
        cases h
        obtain ⟨rest, hrest⟩ := List.isPrefixOf_iff_prefix.mp hstarts
        rw [← hrest]
        simp
      case isFalse => cases h

/-- A parent path is a part of the path, up to the last delimiter. -/
theorem ImapFolder.parentPath_eq_some {f : ImapFolder} {p : Text} (h : f.parentPath = some p) :
    ∃ delim leaf, f.delimiter = some delim ∧ delim ≠ [] ∧ f.name = p ++ delim ++ leaf := by
  unfold ImapFolder.parentPath splitImapFolderPath at h
  split at h
  case h_1 => cases h
  case h_2 delim hdelim =>
    obtain ⟨hsome, hne⟩ := Option.filter_eq_some_iff.mp hdelim
    split at h
    case h_1 => cases h
    case h_2 parent leaf hsplit =>
      split at h
      case isTrue => cases h
      case isFalse =>
        cases h
        exact ⟨delim, leaf, hsome, by simpa using hne, rsplitOnce_eq_some hsplit⟩

theorem ImapFolder.length_parentPath {f : ImapFolder} {p : Text} (h : f.parentPath = some p) :
    p.length < f.name.length := by
  obtain ⟨delim, leaf, -, hne, hname⟩ := ImapFolder.parentPath_eq_some h
  have hpos := List.length_pos_iff.mpr hne
  rw [hname, List.length_append, List.length_append]
  omega

/-! ## Writes -/

section Writes

variable (names : MailboxNames) (acc : AccountId)

/-- The upserts of a pass in which they all succeed. -/
def upsertAll (db : Db) (folders : List ImapFolder) : Db :=
  folders.foldl (fun db f => upsertListedFolder names db acc f) db

/-- A pass that stops leaves what the upserts before it made. -/
theorem upsertFolders_take (r : AccountReplies) (k : Nat) (db : Db) (folders : List ImapFolder) :
    ∃ n, (upsertFolders names acc r k db folders).2 = upsertAll names acc db (folders.take n) := by
  induction folders generalizing k db with
  | nil => exact ⟨0, rfl⟩
  | cons f folders ih =>
    unfold upsertFolders
    split
    case isTrue =>
      obtain ⟨n, hn⟩ := ih (k + 1) (upsertListedFolder names db acc f)
      exact ⟨n + 1, hn⟩
    case isFalse => exact ⟨0, rfl⟩

variable {names acc} {db : Db} {f : ImapFolder}

theorem find_upsertFolderRow (db : Db) (acc : AccountId) (ext name : Text) (role : Option Text)
    (parent : Option FolderId → Option FolderId) (e : Text) :
    (upsertFolderRow db acc ext name role parent).folders.find (acc, e) =
      if (acc, e) = (acc, ext) then
        some ((db.folders.find (acc, ext)).elim (newFolderRow db acc ext name role (parent none))
          fun f => { f with name := name, role := role, parentId := parent f.parentId })
      else db.folders.find (acc, e) :=
  db.folders.find_upsert (newFolderRow db acc ext name role (parent none))
    (fun f => { f with name := name, role := role, parentId := parent f.parentId })
    (fun _ => rfl) (fun _ => rfl) (fun _ f hf => db.newFolderId_fresh f hf) rfl (acc, e)

/-- The parent of the row with a path. -/
def parentIdOf (db : Db) (acc : AccountId) (e : Text) : Option FolderId :=
  (db.folders.find (acc, e)).bind FolderRow.parentId

theorem findFolderId_upsertListedFolder (e : Text) :
    findFolderId (upsertListedFolder names db acc f) acc e =
      if e = f.name then some ((findFolderId db acc f.name).getD db.newFolderId)
      else findFolderId db acc e := by
  unfold findFolderId upsertListedFolder upsertFolder
  simp only [find_upsertFolderRow, Prod.mk.injEq, true_and]
  split
  · cases db.folders.find (acc, f.name) <;> rfl
  · rfl

theorem parentIdOf_upsertListedFolder (e : Text) :
    parentIdOf (upsertListedFolder names db acc f) acc e =
      if e = f.name then f.parentPath.bind (findFolderId db acc) else parentIdOf db acc e := by
  unfold parentIdOf upsertListedFolder upsertFolder
  simp only [find_upsertFolderRow, Prod.mk.injEq, true_and]
  split
  · cases db.folders.find (acc, f.name) <;> rfl
  · rfl

theorem findFolderId_upsertAll_of_some {e : Text} {id : FolderId}
    (h : findFolderId db acc e = some id) (folders : List ImapFolder) :
    findFolderId (upsertAll names acc db folders) acc e = some id := by
  induction folders generalizing db with
  | nil => exact h
  | cons f folders ih =>
    refine ih ?_
    rw [findFolderId_upsertListedFolder]
    split
    case isTrue heq => rw [← heq, h, Option.getD_some]
    case isFalse => exact h

/-- After the upserts, the paths with a row are those before and the listed ones. -/
theorem findFolderId_upsertAll_isSome (folders : List ImapFolder) (e : Text) :
    (findFolderId (upsertAll names acc db folders) acc e).isSome ↔
      (findFolderId db acc e).isSome ∨ e ∈ folders.map ImapFolder.name := by
  induction folders generalizing db with
  | nil => simp [upsertAll]
  | cons f folders ih =>
    have hstep : upsertAll names acc db (f :: folders) =
        upsertAll names acc (upsertListedFolder names db acc f) folders := rfl
    rw [hstep, ih, findFolderId_upsertListedFolder, List.map_cons, List.mem_cons]
    by_cases he : e = f.name <;> simp [he]

theorem parentIdOf_upsertAll_of_not_mem {folders : List ImapFolder} {e : Text}
    (h : e ∉ folders.map ImapFolder.name) :
    parentIdOf (upsertAll names acc db folders) acc e = parentIdOf db acc e := by
  induction folders generalizing db with
  | nil => rfl
  | cons f folders ih =>
    rw [List.map_cons, List.mem_cons, not_or] at h
    have hstep : upsertAll names acc db (f :: folders) =
        upsertAll names acc (upsertListedFolder names db acc f) folders := rfl
    rw [hstep, ih h.2, parentIdOf_upsertListedFolder, if_neg h.1]

/-- The parent of a path is the one of its last write. -/
theorem parentIdOf_upsertAll {before after : List ImapFolder}
    (h : f.name ∉ after.map ImapFolder.name) :
    parentIdOf (upsertAll names acc db (before ++ f :: after)) acc f.name =
      f.parentPath.bind (findFolderId (upsertAll names acc db before) acc) := by
  have hsplit : upsertAll names acc db (before ++ f :: after) =
      upsertAll names acc (upsertListedFolder names (upsertAll names acc db before) acc f) after := by
    simp [upsertAll]
  rw [hsplit, parentIdOf_upsertAll_of_not_mem h, parentIdOf_upsertListedFolder, if_pos rfl]

end Writes

/-! ## Trees -/

/-- Every parent is a row of the account with a shorter path. -/
def ShorterParents (db : Db) : Prop :=
  ∀ row ∈ db.folders.rows, ∀ id, row.parentId = some id → ∃ parent ∈ db.folders.rows,
    parent.id = id ∧ parent.accountId = row.accountId ∧
    ∃ p e, parent.externalId = some p ∧ row.externalId = some e ∧ p.length < e.length

/-- One row is the parent of the other. -/
def ParentOf (db : Db) (child parent : FolderRow) : Prop :=
  child ∈ db.folders.rows ∧ parent ∈ db.folders.rows ∧ child.parentId = some parent.id

theorem acyclic_of_shorterParents {db : Db} (h : ShorterParents db) (row : FolderRow) :
    ¬Relation.TransGen (ParentOf db) row row := by
  have hstep : ∀ child parent, ParentOf db child parent →
      (parent.externalId.getD []).length < (child.externalId.getD []).length := by
    rintro child parent ⟨hchild, hparent, hid⟩
    obtain ⟨q, hq, hqid, -, p, e, hp, he, hlt⟩ := h child hchild _ hid
    obtain rfl : q = parent := db.folders.eq_of_pk hq hparent hqid
    simpa [hp, he] using hlt
  have hrun : ∀ child parent, Relation.TransGen (ParentOf db) child parent →
      (parent.externalId.getD []).length < (child.externalId.getD []).length := by
    intro child parent hchain
    induction hchain with
    | single hone => exact hstep _ _ hone
    | tail _ hone ih => exact (hstep _ _ hone).trans ih
  exact fun hcycle => Nat.lt_irrefl _ (hrun row row hcycle)

theorem exists_upserted (db : Db) (acc : AccountId) (ext name : Text) (role : Option Text)
    (parent : Option FolderId → Option FolderId) {row : FolderRow} (h : row ∈ db.folders.rows) :
    ∃ row' ∈ (upsertFolderRow db acc ext name role parent).folders.rows,
      row'.id = row.id ∧ row'.accountId = row.accountId ∧ row'.externalId = row.externalId := by
  refine ⟨_, (mem_upsertFolderRow db acc ext name role parent _).mpr (.inl ⟨row, h, rfl⟩), ?_⟩
  split <;> exact ⟨rfl, rfl, rfl⟩

theorem ShorterParents.upsertListedFolder {db : Db} (h : ShorterParents db) (names : MailboxNames)
    (acc : AccountId) (f : ImapFolder) : ShorterParents (upsertListedFolder names db acc f) := by
  intro row hrow id hid
  obtain ⟨name, role, hupsert⟩ : ∃ name role, Lyra.upsertListedFolder names db acc f =
      upsertFolderRow db acc f.name name role fun _ => f.parentPath.bind (findFolderId db acc) :=
    ⟨_, _, rfl⟩
  rw [hupsert] at hrow ⊢
  -- a parent found among the rows before is there after
  have hcarry : ∀ parent ∈ db.folders.rows, ∀ e p, parent.id = id →
      parent.accountId = row.accountId → parent.externalId = some p → row.externalId = some e →
      p.length < e.length → ∃ parent ∈ (upsertFolderRow db acc f.name name role
        fun _ => f.parentPath.bind (findFolderId db acc)).folders.rows,
        parent.id = id ∧ parent.accountId = row.accountId ∧
        ∃ p e, parent.externalId = some p ∧ row.externalId = some e ∧ p.length < e.length := by
    intro parent hparent e p hpid hacc hp he hlt
    obtain ⟨parent', hparent', hid', hacc', hext'⟩ := exists_upserted db acc f.name name role
      (fun _ => f.parentPath.bind (findFolderId db acc)) hparent
    exact ⟨parent', hparent', hid'.trans hpid, hacc'.trans hacc, p, e, hext'.trans hp, he, hlt⟩
  -- the row of the path takes its parent from the rows before
  have hown : row.accountId = acc → row.externalId = some f.name →
      f.parentPath.bind (findFolderId db acc) = some id →
      ∃ parent ∈ (upsertFolderRow db acc f.name name role
        fun _ => f.parentPath.bind (findFolderId db acc)).folders.rows,
        parent.id = id ∧ parent.accountId = row.accountId ∧
        ∃ p e, parent.externalId = some p ∧ row.externalId = some e ∧ p.length < e.length := by
    intro hacc hext hparent
    obtain ⟨p, hp, hfound⟩ := Option.bind_eq_some_iff.mp hparent
    obtain ⟨parent, hmem, hpid, hpacc, hpext⟩ := findFolderId_eq_some hfound
    exact hcarry parent hmem _ p hpid (hpacc.trans hacc.symm) hpext hext
      (ImapFolder.length_parentPath hp)
  rcases (mem_upsertFolderRow db acc f.name name role _ row).mp hrow with ⟨x, hx, hxrow⟩ | ⟨-, hnew⟩
  · split at hxrow
    case isTrue hkey =>
      subst hxrow
      obtain ⟨ext, hext, hpair⟩ := Option.map_eq_some_iff.mp hkey
      cases hpair
      exact hown rfl hext hid
    case isFalse =>
      subst hxrow
      obtain ⟨parent, hmem, hpid, hacc, p, e, hp, he, hlt⟩ := h x hx id hid
      exact hcarry parent hmem e p hpid hacc hp he hlt
  · subst hnew
    exact hown rfl rfl hid

theorem ShorterParents.upsertAll {db : Db} (h : ShorterParents db) (names : MailboxNames)
    (acc : AccountId) (folders : List ImapFolder) : ShorterParents (upsertAll names acc db folders) := by
  induction folders generalizing db with
  | nil => exact h
  | cons f folders ih => exact ih (h.upsertListedFolder names acc f)

/-! ## Runs -/

/-- The rows have the same ids, accounts, paths and parents. -/
def SameTree (db db' : Db) : Prop :=
  (db.folders.rows.map fun r => (r.id, r.accountId, r.externalId, r.parentId)) =
    db'.folders.rows.map fun r => (r.id, r.accountId, r.externalId, r.parentId)

/-- The databases that sync runs make: the upserts of a pass, in part when it stops, and what else
leaves the tree as it is. -/
inductive Synced (names : MailboxNames) : Db → Prop
  | fresh (now : Nat) : Synced names (Db.fresh now)
  | pass {db : Db} (acc : AccountId) (r : AccountReplies) (listed : List ImapFolder) :
    Synced names db → Synced names (upsertFolders names acc r 0 db (sortByDepth listed)).2
  | other {db db' : Db} : Synced names db → SameTree db db' → Synced names db'

theorem ShorterParents.of_sameTree {db db' : Db} (h : ShorterParents db) (hsame : SameTree db db') :
    ShorterParents db' := by
  have hcarry : ∀ {d d' : Db}, SameTree d d' → ∀ r ∈ d.folders.rows, ∃ r' ∈ d'.folders.rows,
      (r'.id, r'.accountId, r'.externalId, r'.parentId) =
        (r.id, r.accountId, r.externalId, r.parentId) := by
    intro d d' hd r hr
    have hmem := List.mem_map_of_mem
      (f := fun r : FolderRow => (r.id, r.accountId, r.externalId, r.parentId)) hr
    rw [hd] at hmem
    exact List.mem_map.mp hmem
  intro row hrow id hid
  obtain ⟨old, hold, heq⟩ := hcarry hsame.symm row hrow
  simp only [Prod.mk.injEq] at heq
  obtain ⟨parent, hparent, hpid, hacc, p, e, hp, he, hlt⟩ := h old hold id (heq.2.2.2.trans hid)
  obtain ⟨parent', hparent', heq'⟩ := hcarry hsame parent hparent
  simp only [Prod.mk.injEq] at heq'
  exact ⟨parent', hparent', heq'.1.trans hpid, heq'.2.1.trans (hacc.trans heq.2.1), p, e,
    heq'.2.2.1.trans hp, heq.2.2.1.symm.trans he, hlt⟩

theorem Synced.shorterParents {names : MailboxNames} {db : Db} (h : Synced names db) :
    ShorterParents db := by
  induction h with
  | fresh now => exact fun row hrow => absurd hrow List.not_mem_nil
  | pass acc r listed _ ih =>
    obtain ⟨n, hn⟩ := upsertFolders_take names acc r 0 _ (sortByDepth listed)
    rw [hn]
    exact ih.upsertAll names acc _
  | other _ hsame ih => exact ih.of_sameTree hsame

/-! ## The tree after a pass -/

section Pass

variable (names : MailboxNames) (acc : AccountId) (db : Db) (listed : List ImapFolder)

/-- The database after a pass over the listed mailboxes. -/
def afterPass : Db := upsertAll names acc db (sortByDepth listed)

/-- What is asked of the folder rows after a pass. -/
structure WellPlaced : Prop where
  resolved : ∀ f ∈ listed, ∀ p, f.parentPath = some p → p ∈ listed.map ImapFolder.name →
    ∃ row ∈ (afterPass names acc db listed).folders.rows,
      ∃ parent ∈ (afterPass names acc db listed).folders.rows,
        row.key = some (acc, f.name) ∧ parent.key = some (acc, p) ∧ row.parentId = some parent.id
  /-- When a mailbox is written, its parent has been. -/
  before : ∀ pre f post, sortByDepth listed = pre ++ f :: post → ∀ p, f.parentPath = some p →
    p ∈ listed.map ImapFolder.name → (findFolderId (upsertAll names acc db pre) acc p).isSome
  acyclic : ∀ row, ¬Relation.TransGen (ParentOf (afterPass names acc db listed)) row row
  unique : ∀ f ∈ listed, ∃! row, row ∈ (afterPass names acc db listed).folders.rows ∧
    row.key = some (acc, f.name)

/-- Each listed parent is stored or written first, by depth and then in the server's order; and of
the entries with one path, the one written last names the parent. -/
structure InOrder : Prop where
  available : ∀ pre f post, listed = pre ++ f :: post → ∀ p, f.parentPath = some p →
    p ∈ listed.map ImapFolder.name → (findFolderId db acc p).isSome ∨
      ∃ g : ImapFolder, g.name = p ∧ (g ∈ listed ∧ g.depth < f.depth ∨ g ∈ pre ∧ g.depth = f.depth)
  lastNames : ∀ f ∈ listed, ∀ p, f.parentPath = some p → p ∈ listed.map ImapFolder.name →
    ∀ pre g post, listed = pre ++ g :: post → g.name = f.name →
      (∀ h ∈ pre, h.name = f.name → h.depth ≤ g.depth) →
      (∀ h ∈ post, h.name = f.name → h.depth < g.depth) → g.parentPath = some p

end Pass

theorem exists_last {α : Type} {q : α → Prop} {l : List α} (h : ∃ a ∈ l, q a) :
    ∃ pre a post, l = pre ++ a :: post ∧ q a ∧ ∀ b ∈ post, ¬q b := by
  induction l with
  | nil => simp at h
  | cons b l ih =>
    by_cases hl : ∃ a ∈ l, q a
    · obtain ⟨pre, a, post, rfl, ha, hpost⟩ := ih hl
      exact ⟨b :: pre, a, post, rfl, ha, hpost⟩
    · obtain ⟨a, ha, hqa⟩ := h
      rcases List.mem_cons.mp ha with rfl | ha
      · exact ⟨[], a, l, rfl, hqa, fun c hc hqc => hl ⟨c, hc, hqc⟩⟩
      · exact absurd ⟨a, ha, hqa⟩ hl

section Placed

variable {names : MailboxNames} {acc : AccountId} {db : Db} {listed : List ImapFolder}

/-- A parent is there in time exactly if it is stored, or before by depth and order. -/
theorem available_iff {pre post pre' post' : List ImapFolder} {f : ImapFolder} (p : Text)
    (haround : StableSort.Around ImapFolder.depth listed pre f post pre' post') :
    (findFolderId (upsertAll names acc db pre') acc p).isSome ↔
      (findFolderId db acc p).isSome ∨ ∃ g : ImapFolder, g.name = p ∧
        (g ∈ listed ∧ g.depth < f.depth ∨ g ∈ pre ∧ g.depth = f.depth) := by
  rw [findFolderId_upsertAll_isSome, List.mem_map]
  simp only [haround.before, and_comm]

/-- The last write of a path, in the order of the list. -/
theorem lastWritten_iff {pre post pre' post' : List ImapFolder} {f g : ImapFolder}
    (hlisted : listed = pre ++ g :: post)
    (haround : StableSort.Around ImapFolder.depth listed pre g post pre' post') :
    f.name ∉ post'.map ImapFolder.name ↔
      (∀ h ∈ pre, h.name = f.name → h.depth ≤ g.depth) ∧
        ∀ h ∈ post, h.name = f.name → h.depth < g.depth := by
  have hmem : ∀ h, h ∈ listed ↔ h ∈ pre ∨ h = g ∨ h ∈ post := by
    intro h
    rw [hlisted, List.mem_append, List.mem_cons]
  constructor
  · intro hlast
    have hnone : ∀ h ∈ post', h.name ≠ f.name := fun h hh e => hlast (e ▸ List.mem_map_of_mem hh)
    constructor
    · intro h hh hname
      by_contra hgt
      exact hnone h ((haround.after h).mpr (.inl ⟨(hmem h).mpr (.inl hh), by omega⟩)) hname
    · intro h hh hname
      by_contra hge
      rcases Nat.lt_or_ge g.depth h.depth with hlt | hle
      · exact hnone h ((haround.after h).mpr (.inl ⟨(hmem h).mpr (.inr (.inr hh)), hlt⟩)) hname
      · exact hnone h ((haround.after h).mpr (.inr ⟨hh, by omega⟩)) hname
  · rintro ⟨hpre, hpost⟩ hlast
    obtain ⟨h, hh, hname⟩ := List.mem_map.mp hlast
    rcases (haround.after h).mp hh with ⟨hlist, hlt⟩ | ⟨hafter, heq⟩
    · rcases (hmem h).mp hlist with hin | rfl | hin
      · exact absurd (hpre h hin hname) (by omega)
      · exact Nat.lt_irrefl _ hlt
      · exact absurd (hpost h hin hname) (by omega)
    · exact absurd (hpost h hafter hname) (by omega)

theorem find_of_key {row : FolderRow} {e : Text} (hrow : row ∈ db.folders.rows)
    (hkey : row.key = some (acc, e)) :
    findFolderId db acc e = some row.id ∧ parentIdOf db acc e = row.parentId := by
  have hfind := (db.folders.find_eq_some_iff (acc, e) row).mpr ⟨hrow, hkey⟩
  exact ⟨by rw [findFolderId, hfind]; rfl, by rw [parentIdOf, hfind]; rfl⟩

theorem exists_row_of_isSome {e : Text} (h : (findFolderId db acc e).isSome) :
    ∃ row ∈ db.folders.rows, row.key = some (acc, e) := by
  obtain ⟨id, hid⟩ := Option.isSome_iff_exists.mp h
  obtain ⟨row, hrow, -⟩ := Option.map_eq_some_iff.mp hid
  obtain ⟨hmem, hkey⟩ := (db.folders.find_eq_some_iff _ row).mp hrow
  exact ⟨row, hmem, hkey⟩

theorem stored_afterPass {e : Text} (h : e ∈ listed.map ImapFolder.name) :
    (findFolderId (afterPass names acc db listed) acc e).isSome := by
  refine (findFolderId_upsertAll_isSome _ e).mpr (.inr ?_)
  obtain ⟨f, hf, rfl⟩ := List.mem_map.mp h
  exact List.mem_map_of_mem ((StableSort.mem_sortBy ImapFolder.depth).mpr hf)

/-- The stored parent is a listed path exactly if the last write of the path names that parent and
finds it. -/
theorem resolved_iff {f g : ImapFolder} {p : Text} {pre' post' : List ImapFolder}
    (hsorted : sortByDepth listed = pre' ++ g :: post') (hname : g.name = f.name)
    (hlast : f.name ∉ post'.map ImapFolder.name) :
    (∃ row ∈ (afterPass names acc db listed).folders.rows,
      ∃ parent ∈ (afterPass names acc db listed).folders.rows,
        row.key = some (acc, f.name) ∧ parent.key = some (acc, p) ∧
          row.parentId = some parent.id) ↔
      g.parentPath = some p ∧ (findFolderId (upsertAll names acc db pre') acc p).isSome := by
  have hgname : g.name ∉ post'.map ImapFolder.name := by rwa [hname]
  have hparent : parentIdOf (afterPass names acc db listed) acc f.name =
      g.parentPath.bind (findFolderId (upsertAll names acc db pre') acc) := by
    rw [afterPass, hsorted, ← hname]
    exact parentIdOf_upsertAll hgname
  have hstays : ∀ e id, findFolderId (upsertAll names acc db pre') acc e = some id →
      findFolderId (afterPass names acc db listed) acc e = some id := by
    intro e id h
    have hrest : afterPass names acc db listed =
        upsertAll names acc (upsertAll names acc db pre') (g :: post') := by
      rw [afterPass, hsorted, upsertAll, List.foldl_append]
      rfl
    rw [hrest]
    exact findFolderId_upsertAll_of_some h _
  constructor
  · rintro ⟨row, hrow, parent, hpmem, hkey, hpkey, hid⟩
    rw [(find_of_key hrow hkey).2, hid] at hparent
    obtain ⟨q, hq, hfound⟩ := Option.bind_eq_some_iff.mp hparent.symm
    obtain rfl : q = p := findFolderId_inj (hstays q _ hfound) (find_of_key hpmem hpkey).1
    exact ⟨hq, Option.isSome_of_eq_some hfound⟩
  · rintro ⟨hpath, hfound⟩
    obtain ⟨id, hid⟩ := Option.isSome_iff_exists.mp hfound
    have hfstored : (findFolderId (afterPass names acc db listed) acc f.name).isSome := by
      refine (findFolderId_upsertAll_isSome _ _).mpr (.inr ?_)
      rw [hsorted, ← hname]
      simp
    obtain ⟨row, hrow, hkey⟩ := exists_row_of_isSome hfstored
    obtain ⟨parent, hpmem, hpkey⟩ :=
      exists_row_of_isSome (Option.isSome_of_eq_some (hstays p id hid))
    refine ⟨row, hrow, parent, hpmem, hkey, hpkey, ?_⟩
    rw [hpath, Option.bind_some, hid, (find_of_key hrow hkey).2] at hparent
    rw [hparent, ← hstays p id hid, (find_of_key hpmem hpkey).1]

end Placed

/-! ## One delimiter -/

theorem countMatches_eq_zero {delim s : Text} (h : s.length < delim.length) (k : Nat) :
    countMatches delim k s = 0 := by
  induction s generalizing k with
  | nil => cases k <;> rfl
  | cons c s ih =>
    have hshort : s.length < delim.length := by
      simp only [List.length_cons] at h
      omega
    cases k with
    | succ k => exact ih hshort k
    | zero =>
      have hnot : ¬delim.isPrefixOf (c :: s) = true := by
        intro hstarts
        exact Nat.not_le.mpr h (List.isPrefixOf_iff_prefix.mp hstarts).length_le
      rw [countMatches, if_neg hnot]
      exact ih hshort 0

/-- A delimiter after a path is one more match, wherever the matches in the path stand. -/
theorem countMatches_append {delim : Text} (hne : delim ≠ []) (s t : Text) {k : Nat}
    (hk : k ≤ s.length) :
    countMatches delim k s < countMatches delim k (s ++ delim ++ t) := by
  induction s generalizing k with
  | nil =>
    obtain rfl : k = 0 := Nat.le_zero.mp hk
    obtain ⟨c, rest, rfl⟩ := List.exists_cons_of_ne_nil hne
    have hstarts : (c :: rest).isPrefixOf (c :: (rest ++ t)) = true :=
      List.isPrefixOf_iff_prefix.mpr ⟨t, rfl⟩
    show 0 < countMatches (c :: rest) 0 (c :: (rest ++ t))
    rw [countMatches, if_pos hstarts]
    omega
  | cons c s ih =>
    cases k with
    | succ k => exact ih (Nat.le_of_succ_le_succ hk)
    | zero =>
      simp only [List.cons_append, countMatches]
      by_cases hin : delim.isPrefixOf (c :: s) = true
      · have hlen := (List.isPrefixOf_iff_prefix.mp hin).length_le
        have hfull : delim.isPrefixOf (c :: (s ++ delim ++ t)) = true := by
          rw [List.isPrefixOf_iff_prefix] at hin ⊢
          exact hin.trans ⟨delim ++ t, by simp⟩
        rw [if_pos hin, if_pos hfull]
        simp only [List.length_cons] at hlen
        exact Nat.add_lt_add_left (ih (by omega)) 1
      · rw [if_neg hin]
        split
        case isTrue hcross =>
          -- the match reaches over the end of the path, which is shorter than the delimiter
          have hshort : s.length < delim.length := by
            by_contra hge
            have hpath : c :: s <+: c :: (s ++ delim ++ t) := ⟨delim ++ t, by simp⟩
            have hstarts := List.prefix_of_prefix_length_le (List.isPrefixOf_iff_prefix.mp hcross)
              hpath (by simp only [List.length_cons]; omega)
            exact hin (List.isPrefixOf_iff_prefix.mpr hstarts)
          rw [countMatches_eq_zero hshort]
          omega
        case isFalse => exact ih (Nat.zero_le _)

/-- Where parent and child have one delimiter, the parent is less deep. -/
theorem depth_lt_of_parentPath {f g : ImapFolder} (hdelim : g.delimiter = f.delimiter)
    (hparent : f.parentPath = some g.name) : g.depth < f.depth := by
  obtain ⟨delim, leaf, hf, hne, hname⟩ := ImapFolder.parentPath_eq_some hparent
  have hfilter : (some delim).filter (fun d => decide (d ≠ [])) = some delim := by simp [hne]
  unfold ImapFolder.depth imapFolderDepth
  rw [hdelim, hf]
  simp only [hfilter, hname]
  exact countMatches_append hne g.name leaf (Nat.zero_le _)

/-- A list with one delimiter is in order. -/
theorem inOrder_of_oneDelimiter {acc : AccountId} {db : Db} {listed : List ImapFolder}
    (h : ∀ f ∈ listed, ∀ g ∈ listed, g.delimiter = f.delimiter) : InOrder acc db listed := by
  constructor
  · intro pre f post hlisted p hp hpmem
    obtain ⟨g, hg, rfl⟩ := List.mem_map.mp hpmem
    have hf : f ∈ listed := hlisted ▸ by simp
    exact .inr ⟨g, rfl, .inl ⟨hg, depth_lt_of_parentPath (h f hf g hg) hp⟩⟩
  · intro f hf p hp _ pre g post hlisted hname _ _
    have hg : g ∈ listed := hlisted ▸ by simp
    rw [ImapFolder.parentPath, hname, h f hf g hg]
    exact hp

/-- The databases of sync runs. -/
abbrev SyncedDb (names : MailboxNames) : Type := {db : Db // Synced names db}

/-- After a pass the tree is right exactly if each listed parent is stored or written before, and
the last write of a path names it. -/
theorem wellPlaced_iff (names : MailboxNames) (acc : AccountId) (db : SyncedDb names)
    (listed : List ImapFolder) :
    WellPlaced names acc db.val listed ↔ InOrder acc db.val listed := by
  constructor
  · intro h
    constructor
    · intro pre f post hlisted p hp hpmem
      obtain ⟨pre', post', hsorted, haround⟩ := StableSort.sortBy_split ImapFolder.depth hlisted
      exact (available_iff p haround).mp (h.before pre' f post' hsorted p hp hpmem)
    · intro f hf p hp hpmem pre g post hlisted hname hpre hpost
      obtain ⟨pre', post', hsorted, haround⟩ := StableSort.sortBy_split ImapFolder.depth hlisted
      have hlast := (lastWritten_iff hlisted haround).mpr ⟨hpre, hpost⟩
      exact ((resolved_iff hsorted hname hlast).mp (h.resolved f hf p hp hpmem)).1
  · intro h
    constructor
    · intro f hf p hp hpmem
      have hsome : ∃ g ∈ sortByDepth listed, g.name = f.name :=
        ⟨f, (StableSort.mem_sortBy ImapFolder.depth).mpr hf, rfl⟩
      obtain ⟨pre', g, post', hsorted, hname, hnone⟩ := exists_last hsome
      have hlast : f.name ∉ post'.map ImapFolder.name := by
        intro hmem
        obtain ⟨b, hb, hbname⟩ := List.mem_map.mp hmem
        exact hnone b hb hbname
      obtain ⟨pre, post, hlisted, haround⟩ := StableSort.split_sortBy ImapFolder.depth hsorted
      obtain ⟨hpre, hpost⟩ := (lastWritten_iff hlisted haround).mp hlast
      have hpath := h.lastNames f hf p hp hpmem pre g post hlisted hname hpre hpost
      exact (resolved_iff hsorted hname hlast).mpr
        ⟨hpath, (available_iff p haround).mpr (h.available pre g post hlisted p hpath hpmem)⟩
    · intro pre' f post' hsorted p hp hpmem
      obtain ⟨pre, post, hlisted, haround⟩ := StableSort.split_sortBy ImapFolder.depth hsorted
      exact (available_iff p haround).mpr (h.available pre f post hlisted p hp hpmem)
    · exact acyclic_of_shorterParents (db.property.shorterParents.upsertAll names acc _)
    · intro f hf
      obtain ⟨row, hrow, hkey⟩ := exists_row_of_isSome (stored_afterPass (List.mem_map_of_mem hf))
      exact ⟨row, ⟨hrow, hkey⟩, fun other ho => KeyedTable.eq_of_key _ ho.1 hrow ho.2 hkey⟩

/-- A parent with its own delimiter, and a child that is less deep by its own. -/
def mixedDelimiters : List ImapFolder :=
  [⟨"a.b.c".toList, some ".".toList, []⟩, ⟨"a.b.c/d".toList, some "/".toList, []⟩]

/-- The child is written first and has no parent. -/
theorem not_wellPlaced_mixedDelimiters :
    parentIdOf (afterPass ⟨id, fun _ => true⟩ ['1'] (Db.fresh 0) mixedDelimiters) ['1']
        "a.b.c/d".toList = none ∧
      ¬WellPlaced ⟨id, fun _ => true⟩ ['1'] (Db.fresh 0) mixedDelimiters := by
  refine ⟨by decide +kernel, fun h => ?_⟩
  have hfirst := h.before [] ⟨"a.b.c/d".toList, some "/".toList, []⟩
    [⟨"a.b.c".toList, some ".".toList, []⟩] (by decide +kernel) "a.b.c".toList (by decide +kernel)
    (by decide +kernel)
  cases hfirst

end Lyra
