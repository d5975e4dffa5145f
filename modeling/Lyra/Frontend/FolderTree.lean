import Lyra.Lib.Outline
import Lyra.Store.Schema

/-!
# Folder lists

`folder-tree.ts`: the folders of an account as the rows of a move-to menu.  Role folders come
first, each with the custom folders below it, then the tree of the other custom folders.

`localeCompare` is a parameter.  Folder ids are not empty, so an empty parent id is an absent one.
The recursion over the children has a number of rounds.

* `entries_eq`: the rows are the outline of the role folders and the roots;
* `move_entries_listed`: the recursion ends for any parents, role folders stand at depth 0, custom
  folders whose parents lead to a root are listed, and each stands below its parent.
-/

namespace Lyra.FolderTree

open Lyra.Lib
open Relation

/-! ## Folders -/

@[ext]
structure FolderId where
  text : Text
  nonempty : text ≠ []

instance : DecidableEq FolderId := fun a b => decidable_of_iff (a.text = b.text) FolderId.ext_iff.symm

inductive StandardFolderRole
  | inbox | drafts | sent | spam | trash | archive
  deriving DecidableEq, Repr

structure MailFolder where
  id : FolderId
  accountId : Text
  name : Text
  role : Option StandardFolderRole := none
  roleOverride : Option StandardFolderRole := none
  parentId : Option FolderId := none
  unreadCount : Nat := 0
  sortOrder : Int := 0
  deriving DecidableEq

inductive FolderTreeNode
  | node (id : FolderId) (title : Text) (label : Option Text) (children : List FolderTreeNode)

structure MoveFolderEntry where
  id : FolderId
  name : Text
  role : Option StandardFolderRole
  depth : Nat
  deriving DecidableEq

def canonicalRoleOrder : List StandardFolderRole :=
  [.inbox, .drafts, .sent, .spam, .trash, .archive]

def effectiveFolderRole (folder : MailFolder) : Option StandardFolderRole :=
  folder.roleOverride.or folder.role

section Building

variable (localeCompare : Text → Text → Int)

/-- The comparison of `sort`: the orders, then the names. -/
def compareFolders (a b : MailFolder) : Int :=
  if a.sortOrder - b.sortOrder ≠ 0 then a.sortOrder - b.sortOrder else localeCompare a.name b.name

def sortFolders (folders : List MailFolder) : List MailFolder :=
  folders.mergeSort fun a b => decide (compareFolders localeCompare a b ≤ 0)

def roleIndex (folder : MailFolder) : Nat :=
  match effectiveFolderRole folder with
  | some role => canonicalRoleOrder.idxOf role
  | none => canonicalRoleOrder.length

def sortRoleFolders (folders : List MailFolder) : List MailFolder :=
  folders.mergeSort fun a b =>
    if roleIndex a ≠ roleIndex b then decide (roleIndex a ≤ roleIndex b)
    else decide (compareFolders localeCompare a b ≤ 0)

/-! ## The tree -/

def customFolders (accountFolders : List MailFolder) : List MailFolder :=
  accountFolders.filter fun folder => folder.role = none

def label (folder : MailFolder) : Option Text :=
  if folder.unreadCount > 0 then some (toString folder.unreadCount).toList else none

/-- The custom folders with a parent, sorted. -/
def childFolders (accountFolders : List MailFolder) (parentId : FolderId) : List MailFolder :=
  sortFolders localeCompare
    ((customFolders accountFolders).filter fun folder => folder.parentId = some parentId)

/-- `childrenOf` of `makeTree`. -/
def childrenOf (accountFolders : List MailFolder) : Nat → FolderId → Option (List FolderTreeNode)
  | 0, _ => none
  | rounds + 1, parentId =>
    (childFolders localeCompare accountFolders parentId).mapM fun folder =>
      (childrenOf accountFolders rounds folder.id).map
        (FolderTreeNode.node folder.id folder.name (label folder))

/-- The filter for the roots. -/
def isRoot (accountFolders : List MailFolder) (allFolders : FolderId → Option MailFolder)
    (folder : MailFolder) : Bool :=
  match folder.parentId with
  | none => true
  | some parentId =>
    match allFolders parentId with
    | none => false
    | some parent =>
      if parent.role.isSome then false
      else !((customFolders accountFolders).map MailFolder.id).contains parentId

def rootFolders (accountFolders : List MailFolder) (allFolders : FolderId → Option MailFolder) :
    List MailFolder :=
  sortFolders localeCompare
    ((customFolders accountFolders).filter (isRoot accountFolders allFolders))

def buildCustomFolderTree (rounds : Nat) (accountFolders : List MailFolder)
    (allFolders : FolderId → Option MailFolder) : Option (List FolderTreeNode) :=
  (rootFolders localeCompare accountFolders allFolders).mapM fun folder =>
    (childrenOf localeCompare accountFolders rounds folder.id).map
      (FolderTreeNode.node folder.id folder.name (label folder))

def buildRoleChildren (rounds : Nat) (roleFolderId : FolderId) (accountFolders : List MailFolder) :
    Option (List FolderTreeNode) :=
  childrenOf localeCompare accountFolders rounds roleFolderId

mutual

def flattenNode : FolderTreeNode → Nat → List MoveFolderEntry
  | .node id title _ children, depth =>
    { id := id, name := title, role := none, depth := depth } :: flattenTree children (depth + 1)

def flattenTree : List FolderTreeNode → Nat → List MoveFolderEntry
  | [], _ => []
  | node :: nodes, depth => flattenNode node depth ++ flattenTree nodes depth

end

def buildAccountMoveFolderEntries (rounds : Nat) (accountFolders : List MailFolder)
    (allFolders : FolderId → Option MailFolder) : Option (List MoveFolderEntry) := do
  let roleFolders :=
    sortRoleFolders localeCompare (accountFolders.filter fun folder => folder.role.isSome)
  let roleRows ← roleFolders.mapM fun role =>
    (buildRoleChildren localeCompare rounds role.id accountFolders).map fun children =>
      { id := role.id, name := role.name, role := role.role, depth := 0 } :: flattenTree children 1
  let customTree ← buildCustomFolderTree localeCompare rounds accountFolders allFolders
  return roleRows.flatten ++ flattenTree customTree 0

end Building

/-! ## The folders of an account -/

/-- The folders of the store, by their ids. -/
structure FolderStore where
  folders : List MailFolder
  ids : (folders.map MailFolder.id).Nodup

namespace FolderStore

variable (store : FolderStore)

def lookup (id : FolderId) : Option MailFolder := store.folders.find? fun folder => folder.id = id

def account (accountId : Text) : List MailFolder :=
  store.folders.filter fun folder => folder.accountId = accountId

end FolderStore

def entry (folder : MailFolder) (depth : Nat) : MoveFolderEntry where
  id := folder.id
  name := folder.name
  role := folder.role
  depth := depth

/-- From the folder the parents lead to one without a parent, to a role folder of the account or to
a custom folder of another account. -/
inductive Grounded (store : FolderStore) (accountId : Text) : MailFolder → Prop
  | top {folder : MailFolder} : folder.parentId = none → Grounded store accountId folder
  | role {folder parent : MailFolder} : folder.parentId = some parent.id →
      parent ∈ store.account accountId → parent.role ≠ none → Grounded store accountId folder
  | other {folder parent : MailFolder} : folder.parentId = some parent.id →
      parent ∈ store.folders → parent.accountId ≠ accountId → parent.role = none →
      Grounded store accountId folder
  | child {folder parent : MailFolder} : folder.parentId = some parent.id →
      parent ∈ store.account accountId → parent.role = none →
      Grounded store accountId parent → Grounded store accountId folder

/-- The row of `folder` is below that of `parent`, one deeper, with only deeper rows between. -/
def Below (rows : List MoveFolderEntry) (parent folder : MailFolder) (depth : Nat) : Prop :=
  ∃ before between after,
    rows = before ++ entry parent depth :: between ++ entry folder (depth + 1) :: after ∧
      ∀ row ∈ between, depth < row.depth

/-- Every folder of the account once, and every child below its parent. -/
structure Complete (store : FolderStore) (accountId : Text) (rows : List MoveFolderEntry) :
    Prop where
  every : ∀ folder ∈ store.account accountId, ∃ depth, entry folder depth ∈ rows
  once : (rows.map MoveFolderEntry.id).Nodup
  own : ∀ row ∈ rows, ∃ folder ∈ store.account accountId, row = entry folder row.depth
  nested : ∀ folder ∈ store.account accountId, ∀ parent ∈ store.account accountId,
    folder.parentId = some parent.id → ∀ depth, entry parent depth ∈ rows →
      Below rows parent folder depth

/-- The rows of an account: role folders at depth 0, custom folders below their parents. -/
structure Listed (store : FolderStore) (accountId : Text) (rows : List MoveFolderEntry) : Prop where
  roles : ∀ folder ∈ store.account accountId, folder.role ≠ none → entry folder 0 ∈ rows
  custom : ∀ folder ∈ store.account accountId, folder.role = none →
    Grounded store accountId folder → ∃ depth, entry folder depth ∈ rows
  once : (rows.map MoveFolderEntry.id).Nodup
  own : ∀ row ∈ rows, ∃ folder ∈ store.account accountId, row = entry folder row.depth
  nested : ∀ folder ∈ store.account accountId, folder.role = none →
    ∀ parent ∈ store.account accountId, folder.parentId = some parent.id →
      ∀ depth, entry parent depth ∈ rows → Below rows parent folder depth

/-! ## The rows are an outline -/

section Rows

variable {localeCompare : Text → Text → Int} {rounds d : Nat} {f g : MailFolder}

/-- The children of a folder of the account. -/
def childrenIn (localeCompare : Text → Text → Int) (folders : List MailFolder) (f : MailFolder) :
    List MailFolder :=
  if f ∈ folders then childFolders localeCompare folders f.id else []

def rowOf (r : MailFolder × Nat) : MoveFolderEntry := entry r.1 r.2

theorem mem_sortFolders {folders : List MailFolder} :
    f ∈ sortFolders localeCompare folders ↔ f ∈ folders :=
  (List.mergeSort_perm _ _).mem_iff

theorem mem_customFolders {folders : List MailFolder} :
    f ∈ customFolders folders ↔ f ∈ folders ∧ f.role = none := by
  unfold customFolders
  rw [List.mem_filter, decide_eq_true_eq]

theorem mem_childFolders {folders : List MailFolder} {id : FolderId} :
    f ∈ childFolders localeCompare folders id ↔
      (f ∈ folders ∧ f.role = none) ∧ f.parentId = some id := by
  unfold childFolders
  rw [mem_sortFolders, List.mem_filter, mem_customFolders, decide_eq_true_eq]

theorem mem_childrenIn {folders : List MailFolder} :
    f ∈ childrenIn localeCompare folders g ↔
      g ∈ folders ∧ (f ∈ folders ∧ f.role = none) ∧ f.parentId = some g.id := by
  unfold childrenIn
  split
  case isTrue hg => simp [mem_childFolders, hg]
  case isFalse hg => simp [hg]

/-- A tree that is flattened from its folders on. -/
theorem flattenTree_outlines {folders l : List MailFolder} (hl : ∀ f ∈ l, f.role = none)
    (hone : ∀ f ∈ l, (childrenOf localeCompare folders rounds f.id).map
        (fun children => entry f d :: flattenTree children (d + 1)) =
      (outline (childrenIn localeCompare folders) rounds d f).map (List.map rowOf)) :
    (l.mapM fun f => (childrenOf localeCompare folders rounds f.id).map
        (FolderTreeNode.node f.id f.name (label f))).map (flattenTree · d) =
      (outlines (childrenIn localeCompare folders) rounds d l).map (List.map rowOf) := by
  induction l with
  | nil =>
    rw [outlines_nil]
    rfl
  | cons f l ih =>
    have hrest := ih (fun g hg => hl g (List.mem_cons_of_mem f hg))
      (fun g hg => hone g (List.mem_cons_of_mem f hg))
    have hfirst := hone f List.mem_cons_self
    have hentry : entry f d = ⟨f.id, f.name, none, d⟩ := by
      rw [entry, hl f List.mem_cons_self]
    rw [outlines_cons, List.mapM_cons]
    cases hchildren : childrenOf localeCompare folders rounds f.id with
    | none =>
      rw [hchildren, Option.map_none, eq_comm, Option.map_eq_none_iff] at hfirst
      rw [hfirst]
      rfl
    | some children =>
      rw [hchildren, Option.map_some, eq_comm] at hfirst
      obtain ⟨first, houtline, hrows⟩ := Option.map_eq_some_iff.mp hfirst
      rw [houtline, Option.bind_some, Option.map_map]
      cases htree : l.mapM fun f => (childrenOf localeCompare folders rounds f.id).map
          (FolderTreeNode.node f.id f.name (label f)) with
      | none =>
        rw [htree, Option.map_none, eq_comm, Option.map_eq_none_iff] at hrest
        rw [hrest]
        rfl
      | some nodes =>
        rw [htree, Option.map_some, eq_comm] at hrest
        obtain ⟨rest, hrest, hnodes⟩ := Option.map_eq_some_iff.mp hrest
        rw [hrest]
        show some (flattenNode _ d ++ flattenTree nodes d) = some (List.map rowOf (first ++ rest))
        rw [List.map_append, hrows, hnodes, flattenNode, hentry]

theorem childrenOf_outline {folders : List MailFolder} (hf : f ∈ folders) :
    (childrenOf localeCompare folders rounds f.id).map
        (fun children => entry f d :: flattenTree children (d + 1)) =
      (outline (childrenIn localeCompare folders) rounds d f).map (List.map rowOf) := by
  induction rounds generalizing f d with
  | zero => rfl
  | succ rounds ih =>
    have hbelow : childFolders localeCompare folders f.id = childrenIn localeCompare folders f := by
      unfold childrenIn
      rw [if_pos hf]
    have hcustom : ∀ g ∈ childrenIn localeCompare folders f, g.role = none :=
      fun g hg => (mem_childrenIn.mp hg).2.1.2
    have hforest := flattenTree_outlines hcustom fun g hg =>
      @ih (d + 1) g (mem_childrenIn.mp hg).2.1.1
    rw [outline_succ, Option.map_map, childrenOf, hbelow]
    have hcons := congrArg (Option.map (entry f d :: ·)) hforest
    rw [Option.map_map, Option.map_map] at hcons
    exact hcons

theorem rows_outlines {folders l : List MailFolder} (hl : ∀ f ∈ l, f ∈ folders) :
    (l.mapM fun f => (buildRoleChildren localeCompare rounds f.id folders).map fun children =>
        { id := f.id, name := f.name, role := f.role, depth := 0 } :: flattenTree children 1).map
        List.flatten =
      (outlines (childrenIn localeCompare folders) rounds 0 l).map (List.map rowOf) := by
  induction l with
  | nil =>
    rw [outlines_nil]
    rfl
  | cons f l ih =>
    have hrest := ih fun g hg => hl g (List.mem_cons_of_mem f hg)
    have hfirst : ((buildRoleChildren localeCompare rounds f.id folders).map fun children =>
        { id := f.id, name := f.name, role := f.role, depth := 0 } :: flattenTree children 1) =
        (outline (childrenIn localeCompare folders) rounds 0 f).map (List.map rowOf) :=
      childrenOf_outline (hl f List.mem_cons_self)
    rw [outlines_cons, List.mapM_cons, hfirst]
    cases outline (childrenIn localeCompare folders) rounds 0 f with
    | none => rfl
    | some first =>
      rw [Option.map_some, Option.bind_some]
      cases hrows : l.mapM fun f =>
          (buildRoleChildren localeCompare rounds f.id folders).map fun children =>
            { id := f.id, name := f.name, role := f.role, depth := 0 } ::
              flattenTree children 1 with
      | none =>
        rw [hrows, Option.map_none, eq_comm, Option.map_eq_none_iff] at hrest
        rw [hrest]
        rfl
      | some rows =>
        rw [hrows, Option.map_some, eq_comm] at hrest
        obtain ⟨rest, hrest, hflatten⟩ := Option.map_eq_some_iff.mp hrest
        rw [hrest, Option.map_some, Option.map_some, List.map_append, hflatten]
        rfl

/-- The role folders and the roots, of which the rows are the outline. -/
def tops (localeCompare : Text → Text → Int) (folders : List MailFolder)
    (allFolders : FolderId → Option MailFolder) : List MailFolder :=
  sortRoleFolders localeCompare (folders.filter fun folder => folder.role.isSome) ++
    rootFolders localeCompare folders allFolders

theorem mem_roleFolders {folders : List MailFolder} :
    f ∈ sortRoleFolders localeCompare (folders.filter fun folder => folder.role.isSome) ↔
      f ∈ folders ∧ f.role ≠ none := by
  unfold sortRoleFolders
  rw [(List.mergeSort_perm _ _).mem_iff, List.mem_filter, Option.isSome_iff_ne_none]

theorem mem_rootFolders {folders : List MailFolder} {allFolders : FolderId → Option MailFolder} :
    f ∈ rootFolders localeCompare folders allFolders ↔
      (f ∈ folders ∧ f.role = none) ∧ isRoot folders allFolders f = true := by
  unfold rootFolders
  rw [mem_sortFolders, List.mem_filter, mem_customFolders]

theorem entries_bind (folders : List MailFolder) (allFolders : FolderId → Option MailFolder) :
    buildAccountMoveFolderEntries localeCompare rounds folders allFolders =
      (((sortRoleFolders localeCompare (folders.filter fun folder => folder.role.isSome)).mapM
          fun f => (buildRoleChildren localeCompare rounds f.id folders).map fun children =>
            { id := f.id, name := f.name, role := f.role, depth := 0 } ::
              flattenTree children 1).map List.flatten).bind fun first =>
      ((buildCustomFolderTree localeCompare rounds folders allFolders).map (flattenTree · 0)).map
        fun rest => first ++ rest := by
  unfold buildAccountMoveFolderEntries
  dsimp only
  cases (sortRoleFolders localeCompare (folders.filter fun folder => folder.role.isSome)).mapM
      fun f => (buildRoleChildren localeCompare rounds f.id folders).map fun children =>
        { id := f.id, name := f.name, role := f.role, depth := 0 } :: flattenTree children 1 with
  | none => rfl
  | some roleRows =>
    cases buildCustomFolderTree localeCompare rounds folders allFolders with
    | none => rfl
    | some customTree => rfl

/-- The rows are the outline of the role folders and the roots. -/
theorem entries_eq (folders : List MailFolder) (allFolders : FolderId → Option MailFolder) :
    buildAccountMoveFolderEntries localeCompare rounds folders allFolders =
      (outlines (childrenIn localeCompare folders) rounds 0
        (tops localeCompare folders allFolders)).map (List.map rowOf) := by
  have hroles : ∀ f ∈ sortRoleFolders localeCompare
      (folders.filter fun folder => folder.role.isSome), f ∈ folders :=
    fun f hf => (mem_roleFolders.mp hf).1
  have hcustom : ∀ f ∈ rootFolders localeCompare folders allFolders, f.role = none :=
    fun f hf => (mem_rootFolders.mp hf).1.2
  have htree := flattenTree_outlines hcustom fun f hf =>
    @childrenOf_outline localeCompare rounds 0 f folders (mem_rootFolders.mp hf).1.1
  unfold tops
  rw [entries_bind, rows_outlines hroles, outlines_append]
  unfold buildCustomFolderTree
  rw [htree]
  cases outlines (childrenIn localeCompare folders) rounds 0
      (sortRoleFolders localeCompare (folders.filter fun folder => folder.role.isSome)) with
  | none => rfl
  | some first =>
    cases outlines (childrenIn localeCompare folders) rounds 0
        (rootFolders localeCompare folders allFolders) with
    | none => rfl
    | some rest => simp

end Rows

/-! ## The folders of an account are listed -/

section Listing

variable {localeCompare : Text → Text → Int} {rounds : Nat} {store : FolderStore} {accountId : Text}
  {f g p : MailFolder}

theorem mem_account :
    f ∈ store.account accountId ↔ f ∈ store.folders ∧ f.accountId = accountId := by
  unfold FolderStore.account
  rw [List.mem_filter, decide_eq_true_eq]

theorem eq_of_id (hf : f ∈ store.folders) (hg : g ∈ store.folders) (h : f.id = g.id) : f = g :=
  List.inj_on_of_nodup_map store.ids hf hg h

theorem lookup_id (hf : f ∈ store.folders) : store.lookup f.id = some f := by
  unfold FolderStore.lookup
  cases hfind : store.folders.find? fun folder => folder.id = f.id with
  | none =>
    have hnone := List.find?_eq_none.mp hfind f hf
    simp at hnone
  | some g =>
    have hid := List.find?_some hfind
    rw [decide_eq_true_eq] at hid
    rw [eq_of_id (List.mem_of_find?_eq_some hfind) hf hid]

theorem nodup_account : (store.account accountId).Nodup :=
  (List.Nodup.of_map _ store.ids).filter _

theorem nodup_childrenIn : (childrenIn localeCompare (store.account accountId) f).Nodup := by
  unfold childrenIn
  split
  case isTrue =>
    unfold childFolders sortFolders customFolders
    rw [(List.mergeSort_perm _ _).nodup_iff]
    exact (nodup_account.filter _).filter _
  case isFalse => exact List.nodup_nil

theorem parent_unique (hf : p ∈ childrenIn localeCompare (store.account accountId) f)
    (hg : p ∈ childrenIn localeCompare (store.account accountId) g) : f = g := by
  obtain ⟨hf, -, hpf⟩ := mem_childrenIn.mp hf
  obtain ⟨hg, -, hpg⟩ := mem_childrenIn.mp hg
  rw [hpf] at hpg
  exact eq_of_id (mem_account.mp hf).1 (mem_account.mp hg).1 (Option.some.inj hpg)

theorem isRoot_child (hf : f ∈ store.account accountId) (h : p.parentId = some f.id) :
    isRoot (store.account accountId) store.lookup p = false := by
  unfold isRoot
  rw [h]
  simp only [lookup_id (mem_account.mp hf).1]
  cases hrole : f.role with
  | some role => rfl
  | none =>
    have hmem : f.id ∈ (customFolders (store.account accountId)).map MailFolder.id :=
      List.mem_map_of_mem (mem_customFolders.mpr ⟨hf, hrole⟩)
    simp [hmem]

theorem tops_root (hf : f ∈ tops localeCompare (store.account accountId) store.lookup)
    (p : MailFolder) : f ∉ childrenIn localeCompare (store.account accountId) p := by
  intro hchild
  obtain ⟨hp, ⟨-, hcustom⟩, hparent⟩ := mem_childrenIn.mp hchild
  rcases List.mem_append.mp hf with hrole | hroot
  · exact (mem_roleFolders.mp hrole).2 hcustom
  · have hroot := (mem_rootFolders.mp hroot).2
    rw [isRoot_child hp hparent] at hroot
    cases hroot

theorem nodup_tops : (tops localeCompare (store.account accountId) store.lookup).Nodup := by
  unfold tops
  refine List.Nodup.append ?_ ?_ ?_
  · unfold sortRoleFolders
    rw [(List.mergeSort_perm _ _).nodup_iff]
    exact nodup_account.filter _
  · unfold rootFolders sortFolders customFolders
    rw [(List.mergeSort_perm _ _).nodup_iff]
    exact (nodup_account.filter _).filter _
  · intro f hrole hroot
    exact (mem_roleFolders.mp hrole).2 (mem_rootFolders.mp hroot).1.2

theorem tops_account (hf : f ∈ tops localeCompare (store.account accountId) store.lookup) :
    f ∈ store.account accountId := by
  rcases List.mem_append.mp hf with hrole | hroot
  · exact (mem_roleFolders.mp hrole).1
  · exact (mem_rootFolders.mp hroot).1.1

theorem reached_account (hf : f ∈ store.account accountId)
    (h : ReflTransGen (IsChild (childrenIn localeCompare (store.account accountId))) f g) :
    g ∈ store.account accountId := by
  cases h with
  | refl => exact hf
  | tail _ hchild => exact (mem_childrenIn.mp hchild).2.1.1

/-- A grounded folder is below a role folder or a root. -/
theorem reached_of_grounded (hg : Grounded store accountId f) (hf : f ∈ store.account accountId)
    (hcustom : f.role = none) :
    ∃ top ∈ tops localeCompare (store.account accountId) store.lookup,
      ReflTransGen (IsChild (childrenIn localeCompare (store.account accountId))) top f := by
  induction hg with
  | @top f hnone =>
    have hroot : isRoot (store.account accountId) store.lookup f = true := by
      simp [isRoot, hnone]
    exact ⟨f, List.mem_append_right _ (mem_rootFolders.mpr ⟨⟨hf, hcustom⟩, hroot⟩), .refl⟩
  | @role f parent hparent hmem hrole =>
    refine ⟨parent, List.mem_append_left _ (mem_roleFolders.mpr ⟨hmem, hrole⟩), .single ?_⟩
    exact mem_childrenIn.mpr ⟨hmem, ⟨hf, hcustom⟩, hparent⟩
  | @other f parent hparent hmem hother hrole =>
    have hnot : parent.id ∉ (customFolders (store.account accountId)).map MailFolder.id := by
      intro hid
      obtain ⟨own, hown, hid⟩ := List.mem_map.mp hid
      have hown := mem_account.mp (mem_customFolders.mp hown).1
      exact hother (eq_of_id hown.1 hmem hid ▸ hown.2)
    have hroot : isRoot (store.account accountId) store.lookup f = true := by
      unfold isRoot
      rw [hparent]
      simp [lookup_id hmem, hrole, hnot]
    exact ⟨f, List.mem_append_right _ (mem_rootFolders.mpr ⟨⟨hf, hcustom⟩, hroot⟩), .refl⟩
  | @child f parent hparent hmem hrole _ ih =>
    obtain ⟨top, htop, hreach⟩ := ih hmem hrole
    exact ⟨top, htop, hreach.tail (mem_childrenIn.mpr ⟨hmem, ⟨hf, hcustom⟩, hparent⟩)⟩

theorem mem_of_entry {rows : List (MailFolder × Nat)} {d : Nat}
    (hrows : ∀ r ∈ rows, r.1 ∈ store.account accountId) (hf : f ∈ store.account accountId)
    (h : entry f d ∈ rows.map rowOf) : (f, d) ∈ rows := by
  obtain ⟨⟨g, e⟩, hr, he⟩ := List.mem_map.mp h
  have hid : g.id = f.id := congrArg MoveFolderEntry.id he
  have hdepth : e = d := congrArg MoveFolderEntry.depth he
  rw [← eq_of_id (mem_account.mp (hrows _ hr)).1 (mem_account.mp hf).1 hid, ← hdepth]
  exact hr

theorem Below.of_nested {rows : List (MailFolder × Nat)} {d : Nat} (h : NestedIn rows p f d) :
    Below (rows.map rowOf) p f d := by
  obtain ⟨before, between, after, rfl, hdepth⟩ := h
  refine ⟨before.map rowOf, between.map rowOf, after.map rowOf, ?_, ?_⟩
  · simp [rowOf]
  · intro row hrow
    obtain ⟨r, hr, rfl⟩ := List.mem_map.mp hrow
    exact hdepth r hr

/-- What the rows are when the recursion has ended. -/
theorem listed {rows : List MoveFolderEntry}
    (h : buildAccountMoveFolderEntries localeCompare rounds (store.account accountId) store.lookup =
      some rows) : Listed store accountId rows := by
  rw [entries_eq] at h
  obtain ⟨rows, houtlines, rfl⟩ := Option.map_eq_some_iff.mp h
  have hlisted : ∀ f, (∃ d, (f, d) ∈ rows) ↔
      ∃ top ∈ tops localeCompare (store.account accountId) store.lookup,
        ReflTransGen (IsChild (childrenIn localeCompare (store.account accountId))) top f :=
    fun f => mem_outlines_iff houtlines
  have hown : ∀ r ∈ rows, r.1 ∈ store.account accountId := by
    intro r hr
    obtain ⟨top, htop, hreach⟩ := (hlisted r.1).mp ⟨r.2, hr⟩
    exact reached_account (tops_account htop) hreach
  constructor
  case roles =>
    intro f hf hrole
    have htop : f ∈ tops localeCompare (store.account accountId) store.lookup :=
      List.mem_append_left _ (mem_roleFolders.mpr ⟨hf, hrole⟩)
    obtain ⟨before, after, rfl, -⟩ := outlines_head houtlines htop
    exact List.mem_map_of_mem (List.mem_append_right before List.mem_cons_self)
  case custom =>
    intro f hf hcustom hgrounded
    obtain ⟨d, hd⟩ := (hlisted f).mpr (reached_of_grounded hgrounded hf hcustom)
    exact ⟨d, List.mem_map_of_mem hd⟩
  case once =>
    have hnodup := nodup_outlines (fun _ _ _ => parent_unique) (fun _ => nodup_childrenIn)
      nodup_tops (fun r hr => tops_root hr) houtlines
    rw [List.map_map]
    have hids : rows.map (MoveFolderEntry.id ∘ rowOf) = (rows.map Prod.fst).map MailFolder.id := by
      rw [List.map_map]
      rfl
    rw [hids]
    refine List.Nodup.map_on ?_ hnodup
    intro f hf g hg hid
    obtain ⟨r, hr, rfl⟩ := List.mem_map.mp hf
    obtain ⟨r', hr', rfl⟩ := List.mem_map.mp hg
    exact eq_of_id (mem_account.mp (hown r hr)).1 (mem_account.mp (hown r' hr')).1 hid
  case own =>
    intro row hrow
    obtain ⟨r, hr, rfl⟩ := List.mem_map.mp hrow
    exact ⟨r.1, hown r hr, rfl⟩
  case nested =>
    intro f hf hcustom parent hparent hid d hrow
    exact Below.of_nested (nested_outlines houtlines (mem_of_entry hown hparent hrow)
      (mem_childrenIn.mpr ⟨hparent, ⟨hf, hcustom⟩, hid⟩))

/-- For any parents the recursion ends: what is below a role folder or a root has no cycles. -/
theorem entries_isSome (hrounds : (store.account accountId).length ≤ rounds) :
    ∃ rows, buildAccountMoveFolderEntries localeCompare rounds (store.account accountId)
      store.lookup = some rows := by
  obtain ⟨rows, hrows⟩ := outlines_isSome
    (fun top htop f hreach => @reached_account localeCompare store accountId top f
      (tops_account htop) hreach)
    (fun top htop f hreach => acyclic_of_root (fun _ _ _ => parent_unique) (tops_root htop) hreach)
    hrounds 0
  rw [entries_eq, hrows]
  exact ⟨rows.map rowOf, rfl⟩

/-! ## Folders out of place -/

/-- A role folder stands at depth 0 also below a custom folder. -/
theorem not_complete_of_role {rows : List MoveFolderEntry} (hlisted : Listed store accountId rows)
    (hf : f ∈ store.account accountId) (hrole : f.role ≠ none) (hp : p ∈ store.account accountId)
    (hparent : f.parentId = some p.id) : ¬Complete store accountId rows := by
  intro hcomplete
  obtain ⟨d, hd⟩ := hcomplete.every p hp
  obtain ⟨before, between, after, hrows, -⟩ := hcomplete.nested f hf p hp hparent d hd
  have hdeep : entry f (d + 1) ∈ rows := by
    rw [hrows]
    simp
  have he := List.inj_on_of_nodup_map hlisted.once hdeep (hlisted.roles f hf hrole) rfl
  have hdepth : d + 1 = 0 := congrArg MoveFolderEntry.depth he
  omega

/-- Custom folders that all have a parent in the account are below no root. -/
theorem nothing_listed {rows : List MoveFolderEntry}
    (hchildren : ∀ f ∈ store.account accountId, f.role = none ∧
      ∃ parent ∈ store.account accountId, f.parentId = some parent.id)
    (h : buildAccountMoveFolderEntries localeCompare rounds (store.account accountId) store.lookup =
      some rows) : rows = [] := by
  rw [entries_eq] at h
  obtain ⟨rows, houtlines, rfl⟩ := Option.map_eq_some_iff.mp h
  cases rows with
  | nil => rfl
  | cons r rows =>
    obtain ⟨top, htop, -⟩ := (mem_outlines_iff houtlines).mp ⟨r.2, List.mem_cons_self⟩
    obtain ⟨hcustom, parent, hparent, hid⟩ := hchildren top (tops_account htop)
    have hroot : isRoot (store.account accountId) store.lookup top = true := by
      rcases List.mem_append.mp htop with hrole | hroot
      · exact absurd hcustom (mem_roleFolders.mp hrole).2
      · exact (mem_rootFolders.mp hroot).2
    rw [isRoot_child hparent hid] at hroot
    cases hroot

/-! ## The rows of an account -/

theorem move_entries_listed (localeCompare : Text → Text → Int) (store : FolderStore)
    (accountId : Text) (rounds : Nat) (hrounds : (store.account accountId).length ≤ rounds) :
    ∃ rows, buildAccountMoveFolderEntries localeCompare rounds (store.account accountId)
      store.lookup = some rows ∧ Listed store accountId rows := by
  obtain ⟨rows, hrows⟩ := @entries_isSome localeCompare rounds store accountId hrounds
  exact ⟨rows, hrows, listed hrows⟩

end Listing

/-! ## Three stores -/

def compareTexts (a b : Text) : Int :=
  if a < b then -1 else if b < a then 1 else 0

def folderId (c : Char) (s : Text) : FolderId := ⟨c :: s, List.cons_ne_nil c s⟩

def archive : MailFolder where
  id := folderId 'a' []
  accountId := ['1']
  name := "Archive".toList
  role := some .archive

def receipts : MailFolder where
  id := folderId 'r' []
  accountId := ['1']
  name := "Receipts".toList
  parentId := some archive.id

def shops : MailFolder where
  id := folderId 's' []
  accountId := ['1']
  name := "Shops".toList
  parentId := some receipts.id

def projects : MailFolder where
  id := folderId 'p' []
  accountId := ['1']
  name := "Projects".toList

def receiptsStore : FolderStore where
  folders := [shops, projects, receipts, archive]
  ids := by decide

theorem receipts_listed :
    (receiptsStore.account ['1']).length ≤ 4 ∧
      ∃ rows, buildAccountMoveFolderEntries compareTexts 4 (receiptsStore.account ['1'])
        receiptsStore.lookup = some rows ∧ Listed receiptsStore ['1'] rows :=
  ⟨by decide, move_entries_listed compareTexts receiptsStore ['1'] 4 (by decide)⟩

def gmail : MailFolder where
  id := folderId 'g' []
  accountId := ['1']
  name := "[Gmail]".toList

def sentMail : MailFolder where
  id := folderId 'm' []
  accountId := ['1']
  name := "Sent Mail".toList
  role := some .sent
  parentId := some gmail.id

def gmailStore : FolderStore where
  folders := [gmail, sentMail]
  ids := by decide

def inner : MailFolder where
  id := folderId 'i' []
  accountId := ['1']
  name := "Inner".toList
  parentId := some (folderId 'o' [])

def outer : MailFolder where
  id := folderId 'o' []
  accountId := ['1']
  name := "Outer".toList
  parentId := some inner.id

def cyclicStore : FolderStore where
  folders := [inner, outer]
  ids := by decide

/-- The role folder below `[Gmail]` is not listed below it, and the two folders that are parents of
each other are not listed. -/
theorem role_and_cycle_out_of_place :
    (¬∃ rows, buildAccountMoveFolderEntries compareTexts 2 (gmailStore.account ['1'])
        gmailStore.lookup = some rows ∧ Complete gmailStore ['1'] rows) ∧
      ¬∃ rows, buildAccountMoveFolderEntries compareTexts 2 (cyclicStore.account ['1'])
        cyclicStore.lookup = some rows ∧ Complete cyclicStore ['1'] rows := by
  constructor
  · rintro ⟨rows, hrows, hcomplete⟩
    have hsent : sentMail ∈ gmailStore.account ['1'] := by decide
    have hgmail : gmail ∈ gmailStore.account ['1'] := by decide
    exact not_complete_of_role (listed hrows) hsent (by decide) hgmail rfl hcomplete
  · rintro ⟨rows, hrows, hcomplete⟩
    have hinner : inner ∈ cyclicStore.account ['1'] := by decide
    have hnone : rows = [] := nothing_listed (by decide) hrows
    obtain ⟨depth, hentry⟩ := hcomplete.every inner hinner
    rw [hnone] at hentry
    cases hentry

end Lyra.FolderTree
