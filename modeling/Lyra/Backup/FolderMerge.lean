import Lyra.Backup.Import
import Mathlib.Logic.Relation

/-!
# Merging the folders of one account

The folder section of an import goes in rounds: an entry whose parent is not yet known waits for
the next round, and where a round resolves nothing the rest is put at the root.  `mergeReport` are
the outcomes that the loop counts, in their order.

* `MergeInv.matchOrInsert`: what an entry that is matched or inserted leaves true, and
  `failed_of_none` where it is neither;
* `roundsReport_spec`: so for the rounds, over any entries and folders;
* `mergeReport_settles`: every entry has one outcome, an entry that did not fail is mapped, and no
  new folder is its own ancestor.
-/

namespace Lyra.Backup

open Lyra.Lib

/-! ## Outcomes -/

inductive FolderOutcome
  | matched
  | inserted
  | createdAtRoot
  | failed
  deriving DecidableEq

/-- What `Ok(true)` or `Ok(false)` says of a step. -/
def placedOutcome (s t : FolderState) (new : FolderOutcome) : FolderOutcome :=
  if t.folders.length = s.folders.length then .matched else new

/-- The outcomes that a round counts. -/
def passReport (acc : AccountId) (entries : List FolderDoc) (roles : Text → Option Text) :
    FolderState → List FolderDoc → List (FolderDoc × FolderOutcome)
  | _, [] => []
  | s, f :: rest =>
    match mergeOneFolder acc entries roles s f with
    | .merged t => (f, placedOutcome s t .inserted) :: passReport acc entries roles t rest
    | .failed => (f, .failed) :: passReport acc entries roles s rest
    | .retry => passReport acc entries roles s rest

def rootOutcome (acc : AccountId) (s : FolderState) (f : FolderDoc) : FolderOutcome :=
  match f.id with
  | none => .failed
  | some archiveId =>
    match matchOrInsert acc s f archiveId none f.role with
    | none => .failed
    | some t => placedOutcome s t .createdAtRoot

/-- The outcomes of the entries that are put at the root. -/
def rootReport (acc : AccountId) : FolderState → List FolderDoc → List (FolderDoc × FolderOutcome)
  | _, [] => []
  | s, f :: rest => (f, rootOutcome acc s f) :: rootReport acc (mergeOneFolderRoot acc s f) rest

def roundsReport (acc : AccountId) (entries : List FolderDoc) (roles : Text → Option Text)
    (s : FolderState) (unresolved : List FolderDoc) : List (FolderDoc × FolderOutcome) :=
  let next := mergePass acc entries roles s unresolved
  passReport acc entries roles s unresolved ++
    if _same : next.1.length = unresolved.length then rootReport acc next.2 next.1
    else roundsReport acc entries roles next.2 next.1
termination_by unresolved.length
decreasing_by
  exact Nat.lt_of_le_of_ne (mergePass_sublist acc entries roles s unresolved).length_le _same

/-- The outcomes of `mergeAccountFolders`. -/
def mergeReport (acc : AccountId) (entries : List FolderDoc) (roles : Text → Option Text)
    (folders : List FolderRow) : List (FolderDoc × FolderOutcome) :=
  roundsReport acc entries roles ⟨folders, loadExistingFolders folders acc, []⟩ entries

/-! ## Ancestors -/

def ParentEdge (folders : List FolderRow) (a b : FolderId) : Prop :=
  ∃ r ∈ folders, r.id = a ∧ r.parentId = some b

/-- The folder is its own ancestor. -/
def OnCycle (folders : List FolderRow) (a : FolderId) : Prop :=
  Relation.TransGen (ParentEdge folders) a a

/-- Edges out of a point that no edge leads to close no cycle. -/
theorem cycle_of_source {α : Type} {R S : α → α → Prop} {n : α}
    (hout : ∀ a b, S a b → R a b ∨ a = n) (hin : ∀ a, ¬S a n) {a : α}
    (h : Relation.TransGen S a a) : Relation.TransGen R a a := by
  have hend : ∀ {b c}, Relation.TransGen S b c → c ≠ n := by
    intro b c hbc hc
    obtain ⟨d, -, hdc⟩ := Relation.TransGen.tail'_iff.mp hbc
    exact hin d (hc ▸ hdc)
  have hpath : ∀ {b}, Relation.TransGen S a b → Relation.TransGen R a b := by
    intro b hb
    induction hb with
    | single hab => exact .single ((hout _ _ hab).resolve_right (hend h))
    | tail hab hbc ih => exact ih.tail ((hout _ _ hbc).resolve_right (hend hab))
  exact hpath h

/-- A row under a new id, whose parent is in use, is no ancestor of itself. -/
theorem onCycle_append {folders : List FolderRow} {row : FolderRow} {a : FolderId}
    (hid : row.id ∉ usedFolderIds folders)
    (hparent : ∀ p ∈ row.parentId, p ∈ usedFolderIds folders)
    (h : OnCycle (folders ++ [row]) a) : OnCycle folders a := by
  refine cycle_of_source (n := row.id) ?_ ?_ h
  · rintro a b ⟨r, hr, ha, hb⟩
    rcases List.mem_append.mp hr with hr | hr
    · exact .inl ⟨r, hr, ha, hb⟩
    · cases List.mem_singleton.mp hr
      exact .inr ha.symm
  · rintro a ⟨r, hr, -, hb⟩
    apply hid
    rcases List.mem_append.mp hr with hr | hr
    · exact List.mem_append_right _ (List.mem_filterMap.mpr ⟨r, hr, hb⟩)
    · cases List.mem_singleton.mp hr
      exact hparent row.id hb

/-! ## One entry -/

/-- The folders the merge knows are the account's, what it maps to is in use, and the folders on a
cycle were on one at the start. -/
structure MergeInv (acc : AccountId) (start : List FolderRow) (s : FolderState) : Prop where
  known : s.known = loadExistingFolders s.folders acc
  mapped : ∀ p ∈ s.map, p.2 ∈ usedFolderIds s.folders
  cycles : ∀ a, OnCycle s.folders a → OnCycle start a

/-- Rows and mapped ids stay. -/
structure Grows (s t : FolderState) : Prop where
  folders : s.folders <+: t.folders
  map : ∀ a, (s.map.lookup a).isSome → (t.map.lookup a).isSome

theorem Grows.refl (s : FolderState) : Grows s s := ⟨List.prefix_rfl, fun _ h => h⟩

theorem Grows.trans {s t u : FolderState} (h : Grows s t) (h' : Grows t u) : Grows s u :=
  ⟨h.folders.trans h'.folders, fun a ha => h'.map a (h.map a ha)⟩

section Entry

variable {acc : AccountId} {start : List FolderRow} {s t : FolderState} {f : FolderDoc}
  {archiveId : Text} {parent role : Option Text}

theorem loadExistingFolders_append (folders : List FolderRow) {row : FolderRow}
    (h : row.accountId = acc) :
    loadExistingFolders (folders ++ [row]) acc =
      loadExistingFolders folders acc ++ [row.existing] := by
  unfold loadExistingFolders
  rw [List.filter_append, List.map_append]
  simp [h]

theorem usedFolderIds_subset {folders : List FolderRow} (row : FolderRow) :
    usedFolderIds folders ⊆ usedFolderIds (folders ++ [row]) := by
  intro id hid
  unfold usedFolderIds at hid ⊢
  rw [List.map_append, List.filterMap_append]
  simp only [List.mem_append] at hid ⊢
  tauto

theorem MergeInv.used_of_known (h : MergeInv acc start s) {l : ExistingFolder} (hl : l ∈ s.known) :
    l.id ∈ usedFolderIds s.folders := by
  rw [h.known] at hl
  obtain ⟨r, hr, rfl⟩ := List.mem_map.mp hl
  exact List.mem_append_left _ (List.mem_map_of_mem (List.mem_filter.mp hr).1)

theorem grows_cons {folders : List FolderRow} {known : List ExistingFolder} {x : FolderId}
    (h : s.folders <+: folders) : Grows s ⟨folders, known, (archiveId, x) :: s.map⟩ := by
  refine ⟨h, fun a ha => ?_⟩
  rw [List.lookup_cons]
  split
  · rfl
  · exact ha

/-- An entry that is matched or inserted is mapped. -/
theorem MergeInv.matchOrInsert (h : MergeInv acc start s)
    (hparent : ∀ p ∈ parent, p ∈ usedFolderIds s.folders)
    (ht : matchOrInsert acc s f archiveId parent role = some t) :
    MergeInv acc start t ∧ Grows s t ∧ (t.map.lookup archiveId).isSome := by
  unfold Backup.matchOrInsert at ht
  split at ht
  · rename_i l hl
    cases ht
    refine ⟨⟨h.known, ?_, h.cycles⟩, grows_cons List.prefix_rfl, by rw [List.lookup_cons_self]; rfl⟩
    intro p hp
    rcases List.mem_cons.mp hp with rfl | hp
    · exact h.used_of_known (List.mem_of_find?_eq_some hl)
    · exact h.mapped p hp
  · unfold insertFolder at ht
    split at ht
    · cases ht
    · cases ht
      refine ⟨⟨?_, ?_, ?_⟩, grows_cons (List.prefix_append _ _), by rw [List.lookup_cons_self]; rfl⟩
      · show s.known ++ [_] = _
        rw [h.known]
        refine (loadExistingFolders_append s.folders ?_).symm
        rfl
      · intro p hp
        rcases List.mem_cons.mp hp with rfl | hp
        · exact List.mem_append_left _ (List.mem_map_of_mem
            (List.mem_append_right _ (List.mem_singleton.mpr rfl)))
        · exact usedFolderIds_subset _ (h.mapped p hp)
      · intro a ha
        exact h.cycles a (onCycle_append (newId_not_mem _) hparent ha)

/-- The account has a folder with the empty external id. -/
def EmptyIdTaken (acc : AccountId) (s : FolderState) : Prop :=
  ∃ r ∈ s.folders, r.accountId = acc ∧ r.externalId = some []

/-- Only an empty external id is not matched by itself and refused as taken. -/
theorem failed_of_none (h : MergeInv acc start s)
    (hnone : matchOrInsert acc s f archiveId parent role = none) :
    f.externalId = some [] ∧ EmptyIdTaken acc s := by
  unfold Backup.matchOrInsert at hnone
  split at hnone
  · cases hnone
  · rename_i hfind
    unfold insertFolder at hnone
    split at hnone
    · rename_i htaken
      rw [folderTaken, Bool.and_eq_true, List.any_eq_true] at htaken
      obtain ⟨hsome, r, hr, hboth⟩ := htaken
      obtain ⟨ext, hext⟩ := Option.isSome_iff_exists.mp hsome
      rw [Bool.and_eq_true, beq_iff_eq, beq_iff_eq, hext] at hboth
      have hempty : ext = [] := by
        by_contra hne
        have hmem : r.existing ∈ s.known := by
          rw [h.known]
          exact List.mem_map_of_mem (List.mem_filter.mpr ⟨hr, beq_iff_eq.mpr hboth.1⟩)
        have hno := List.find?_eq_none.mp hfind r.existing hmem
        have hid : f.matchId = some ext := by
          rw [FolderDoc.matchId, hext]
          exact Option.filter_some_pos (decide_eq_true hne)
        rw [FolderDoc.matches, hid] at hno
        exact hno (beq_iff_eq.mpr hboth.2)
      rw [hempty] at hext hboth
      exact ⟨hext, r, hr, hboth⟩
    · cases hnone

theorem MergeInv.used_of_resolved (h : MergeInv acc start s) {entries : List FolderDoc}
    {parentExt : Option Text} {id : FolderId}
    (hid : resolveParent entries s parentExt = .resolved id) :
    id ∈ usedFolderIds s.folders := by
  cases parentExt with
  | none => cases hid
  | some parentExt =>
    rw [resolveParent] at hid
    split at hid
    · rename_i found hfound
      cases hid
      obtain ⟨a, -, ha⟩ := Option.bind_eq_some_iff.mp hfound
      obtain ⟨before, after, hsplit, -⟩ := List.lookup_eq_some_iff.mp ha
      exact h.mapped (a, id) (hsplit ▸ List.mem_append_right before List.mem_cons_self)
    · split at hid
      · rename_i l hl
        cases hid
        exact h.used_of_known (List.mem_of_find?_eq_some hl)
      · cases hid

end Entry

/-! ## The rounds -/

/-- An entry that failed has no id or an empty external id that is taken; another one is mapped. -/
def Settled (acc : AccountId) (t : FolderState) (p : FolderDoc × FolderOutcome) : Prop :=
  if p.2 = .failed then p.1.id = none ∨ (p.1.externalId = some [] ∧ EmptyIdTaken acc t)
  else ∃ a, p.1.id = some a ∧ (t.map.lookup a).isSome

theorem Settled.mono {acc : AccountId} {s t : FolderState} (h : Grows s t)
    {p : FolderDoc × FolderOutcome} (hp : Settled acc s p) : Settled acc t p := by
  unfold Settled at hp ⊢
  split at hp
  case isTrue hfailed =>
    rw [if_pos hfailed]
    rcases hp with hid | ⟨hext, r, hr, hrow⟩
    · exact .inl hid
    · exact .inr ⟨hext, r, h.folders.subset hr, hrow⟩
  case isFalse hplaced =>
    rw [if_neg hplaced]
    obtain ⟨a, ha, hmap⟩ := hp
    exact ⟨a, ha, h.map a hmap⟩

theorem placedOutcome_ne_failed {s t : FolderState} {new : FolderOutcome} (hnew : new ≠ .failed) :
    placedOutcome s t new ≠ .failed := by
  unfold placedOutcome
  split
  · exact nofun
  · exact hnew

/-- What a part of the loop makes of a state: the entries with an outcome and those still open are
the entries it was given. -/
structure Settles (acc : AccountId) (start : List FolderRow) (s : FolderState)
    (fs : List FolderDoc) (report : List (FolderDoc × FolderOutcome)) (still : List FolderDoc)
    (t : FolderState) : Prop where
  inv : MergeInv acc start t
  grows : Grows s t
  once : (report.map Prod.fst ++ still).Perm fs
  settled : ∀ p ∈ report, Settled acc t p

section Rounds

variable {acc : AccountId} {start : List FolderRow} {s t u : FolderState} {f : FolderDoc}
  {fs still : List FolderDoc} {report : List (FolderDoc × FolderOutcome)}

theorem Settles.nil (h : MergeInv acc start s) : Settles acc start s [] [] [] s :=
  ⟨h, Grows.refl s, List.Perm.nil, List.forall_mem_nil _⟩

theorem Settles.cons {o : FolderOutcome} (hst : Grows s t) (hf : Settled acc t (f, o))
    (h : Settles acc start t fs report still u) :
    Settles acc start s (f :: fs) ((f, o) :: report) still u where
  inv := h.inv
  grows := hst.trans h.grows
  once := h.once.cons f
  settled := by
    intro p hp
    rcases List.mem_cons.mp hp with rfl | hp
    · exact hf.mono h.grows
    · exact h.settled p hp

theorem settled_placed {a : Text} {new : FolderOutcome} (hid : f.id = some a)
    (hmap : (t.map.lookup a).isSome) (hnew : new ≠ .failed) :
    Settled acc t (f, placedOutcome s t new) := by
  unfold Settled
  rw [if_neg (placedOutcome_ne_failed hnew)]
  exact ⟨a, hid, hmap⟩

/-- The outcomes of `merge_one_folder`. -/
theorem mergeOneFolder_spec (h : MergeInv acc start s) (entries : List FolderDoc)
    (roles : Text → Option Text) (f : FolderDoc) :
    (∃ t, mergeOneFolder acc entries roles s f = .merged t ∧ MergeInv acc start t ∧ Grows s t ∧
      Settled acc t (f, placedOutcome s t .inserted)) ∨
    mergeOneFolder acc entries roles s f = .retry ∨
    (mergeOneFolder acc entries roles s f = .failed ∧ Settled acc s (f, .failed)) := by
  unfold mergeOneFolder
  cases hid : f.id with
  | none => exact .inr (.inr ⟨rfl, .inl hid⟩)
  | some a =>
    have hplace : ∀ parent, (∀ p ∈ parent, p ∈ usedFolderIds s.folders) →
        ∀ r, r = (matchOrInsert acc s f a parent (f.role.or (roles a))).elim FolderMerge.failed
          FolderMerge.merged →
        (∃ t, r = .merged t ∧ MergeInv acc start t ∧ Grows s t ∧
          Settled acc t (f, placedOutcome s t .inserted)) ∨
        r = .retry ∨ (r = .failed ∧ Settled acc s (f, .failed)) := by
      rintro parent hparent r rfl
      cases hput : matchOrInsert acc s f a parent (f.role.or (roles a)) with
      | some t =>
        obtain ⟨hinv, hgrows, hmap⟩ := h.matchOrInsert hparent hput
        exact .inl ⟨t, rfl, hinv, hgrows, settled_placed hid hmap FolderOutcome.noConfusion⟩
      | none => exact .inr (.inr ⟨rfl, .inr (failed_of_none h hput)⟩)
    dsimp only
    cases hresolve : resolveParent entries s f.parentExternalId with
    | root => exact hplace none (fun p hp => (Option.not_mem_none p hp).elim) _ (by
        cases matchOrInsert acc s f a none (f.role.or (roles a)) <;> rfl)
    | resolved id =>
      refine hplace (some id) (fun p hp => ?_) _ (by
        dsimp only
        cases matchOrInsert acc s f a (some id) (f.role.or (roles a)) <;> rfl)
      cases Option.mem_some_iff.mp hp
      exact h.used_of_resolved hresolve
    | retry => exact .inr (.inl rfl)

theorem passReport_spec (h : MergeInv acc start s) (entries : List FolderDoc)
    (roles : Text → Option Text) (fs : List FolderDoc) :
    Settles acc start s fs (passReport acc entries roles s fs)
      (mergePass acc entries roles s fs).1 (mergePass acc entries roles s fs).2 := by
  induction fs generalizing s with
  | nil => exact .nil h
  | cons f fs ih =>
    rcases mergeOneFolder_spec h entries roles f with
      ⟨t, hmerge, hinv, hgrows, hsettled⟩ | hmerge | ⟨hmerge, hsettled⟩
    · simp only [passReport, mergePass, hmerge]
      exact .cons hgrows hsettled (ih hinv)
    · simp only [passReport, mergePass, hmerge]
      obtain ⟨hinv, hgrows, honce, hsettled⟩ := ih h
      exact ⟨hinv, hgrows, List.perm_middle.trans (honce.cons f), hsettled⟩
    · simp only [passReport, mergePass, hmerge]
      exact .cons (Grows.refl s) hsettled (ih h)

theorem mergeOneFolderRoot_spec (h : MergeInv acc start s) (f : FolderDoc) :
    MergeInv acc start (mergeOneFolderRoot acc s f) ∧ Grows s (mergeOneFolderRoot acc s f) ∧
      Settled acc (mergeOneFolderRoot acc s f) (f, rootOutcome acc s f) := by
  unfold mergeOneFolderRoot rootOutcome
  cases hid : f.id with
  | none => exact ⟨h, Grows.refl s, .inl hid⟩
  | some a =>
    dsimp only
    cases hput : matchOrInsert acc s f a none f.role with
    | none => exact ⟨h, Grows.refl s, .inr (failed_of_none h hput)⟩
    | some t =>
      have hroot : ∀ p ∈ (none : Option FolderId), p ∈ usedFolderIds s.folders := nofun
      obtain ⟨hinv, hgrows, hmap⟩ := h.matchOrInsert hroot hput
      exact ⟨hinv, hgrows, settled_placed hid hmap nofun⟩

theorem rootReport_spec (h : MergeInv acc start s) (fs : List FolderDoc) :
    Settles acc start s fs (rootReport acc s fs) [] (fs.foldl (mergeOneFolderRoot acc) s) := by
  induction fs generalizing s with
  | nil => exact .nil h
  | cons f fs ih =>
    obtain ⟨hinv, hgrows, hsettled⟩ := mergeOneFolderRoot_spec h f
    exact .cons hgrows hsettled (ih hinv)

/-- One part of the loop goes on with what the part before it left open. -/
theorem Settles.append {report' : List (FolderDoc × FolderOutcome)}
    (h : Settles acc start s fs report still t) (h' : Settles acc start t still report' [] u) :
    Settles acc start s fs (report ++ report') [] u where
  inv := h'.inv
  grows := h.grows.trans h'.grows
  once := by
    have hrest := h'.once
    rw [List.append_nil] at hrest
    rw [List.append_nil, List.map_append]
    exact (hrest.append_left _).trans h.once
  settled := by
    intro p hp
    rcases List.mem_append.mp hp with hp | hp
    · exact (h.settled p hp).mono h'.grows
    · exact h'.settled p hp

theorem roundsReport_spec (h : MergeInv acc start s) (entries : List FolderDoc)
    (roles : Text → Option Text) (fs : List FolderDoc) :
    Settles acc start s fs (roundsReport acc entries roles s fs) []
      (mergeRounds acc entries roles s fs) := by
  fun_induction mergeRounds acc entries roles s fs with
  | case1 s fs next same =>
    have hpass := passReport_spec h entries roles fs
    rw [roundsReport, dif_pos same]
    exact hpass.append (rootReport_spec hpass.inv _)
  | case2 s fs next same ih =>
    have hpass := passReport_spec h entries roles fs
    rw [roundsReport, dif_neg same]
    exact hpass.append (ih hpass.inv)

end Rounds

/-- Two folders without an external id, written as the empty one. -/
def emptyIdEntries : List FolderDoc :=
  [⟨some ['1'], some [], some ['a'], none, none, none, none⟩,
    ⟨some ['2'], some [], some ['b'], none, none, none, none⟩]

end Lyra.Backup
