import Lyra.Store.Schema
import Lyra.Lib.Lines
import Mathlib.Logic.Function.Basic

/-!
# Extracting an archive

`decrypt_and_open` and `extract_archive` of `backup/import.rs`.  The library that reads zip files
is a parameter: it keeps the directory of the archive and reads the entries from the file itself,
as it is when they are read.  The disk takes every file whose name the system accepts.

* `sanitizeEntryName_normal`: only names below the directory are extracted;
* `extractEntries_written`: so all files are below it, whatever the archive holds;
* `extractEntries_iff`: when the loop spares the archive and keeps to the budget;
* `confined_iff`: exactly when the archive itself is spared and the bytes stay within the budget.
-/

namespace Lyra.Extract

open Lyra.Lib

/-! ## Names -/

/-- A path by its components. -/
abbrev Path := List Text

inductive Component
  | rootDir
  | curDir
  | parentDir
  | normal (segment : Text)
  deriving DecidableEq, Repr

/-- What a piece between slashes stands for; empty ones and dots are skipped. -/
def pieceComponent : Text → Option Component
  | [] => none
  | ['.'] => none
  | ['.', '.'] => some .parentDir
  | segment => some (.normal segment)

/-- `Path::components`; a dot counts at the start only. -/
def components (name : Text) : List Component :=
  match name.splitOn '/' with
  | [] => []
  | first :: rest =>
    (if name.head? = some '/' then [.rootDir]
      else if first = ['.'] then [.curDir]
      else (pieceComponent first).toList) ++ rest.filterMap pieceComponent

/-- The loop of `sanitize_entry_name`. -/
def pushNormal : List Component → Option Path
  | [] => some []
  | .normal segment :: rest => (pushNormal rest).map (segment :: ·)
  | _ :: _ => none

def sanitizeEntryName (name : Text) : Option Path :=
  if name.isEmpty || name.contains '\\' then none
  else
    match pushNormal (components name) with
    | none => none
    | some out => if out.isEmpty then none else some out

/-! ## The staging directory -/

inductive BackupError
  | corruptArchive
  | unsupportedFormat
  | io
  deriving DecidableEq, Repr

structure Tree where
  dirs : List Path
  files : List Path
  deriving DecidableEq, Repr

/-- `create_dir_all`: a file in the way is an error. -/
def Tree.createDirAll (t : Tree) (path : Path) : Option Tree :=
  if path.inits.any (t.files.contains ·) then none else some { t with dirs := path.inits ++ t.dirs }

/-- `File::create`. -/
def Tree.createFile (t : Tree) (path : Path) : Option Tree :=
  if t.dirs.contains path then none else some { t with files := path :: t.files }

/-- Where an entry goes, with the tree after its directories and its file are made. -/
inductive Placed
  | directory (tree : Tree)
  | file (target : Path) (tree : Tree)
  deriving DecidableEq, Repr

/-- The part of a turn of the loop that makes the directories and the file. -/
def place (accepts : Text → Bool) (dir : Path) (tree : Tree) (name : Text) :
    Except BackupError Placed :=
  match sanitizeEntryName name with
  | none => .error .corruptArchive
  | some rel =>
    if !rel.all accepts then .error .io
    else if name.getLast? = some '/' then
      match tree.createDirAll (dir ++ rel) with
      | none => .error .io
      | some tree => .ok (.directory tree)
    else
      match (tree.createDirAll (dir ++ rel.dropLast)).bind (·.createFile (dir ++ rel)) with
      | none => .error .io
      | some tree => .ok (.file (dir ++ rel) tree)

/-! ## Archives -/

/-- The decompressed bytes of an entry, and whether they can be read to their end. -/
structure Content where
  bytes : List UInt8
  whole : Bool
  deriving DecidableEq, Repr

/-- The library; `δ` is the directory of an archive.  An entry is read from the bytes that the file
has then. -/
structure ZipLibrary (δ : Type) where
  readDirectory : List UInt8 → Option δ
  len : δ → Nat
  byName : δ → List UInt8 → Text → Option Content
  nameAt : δ → List UInt8 → Nat → Option Text
  contentAt : δ → List UInt8 → Nat → Content

/-- The fields of the manifest that are checked. -/
structure Manifest where
  format : Nat
  app : Text
  deriving DecidableEq, Repr

def formatVersion : Nat := 1

/-- 16 GiB. -/
def maxExtractedBytes : Nat := 16 * 2 ^ 30

/-- At most so many bytes are copied; an error comes only behind the last of the others. -/
def copied (content : Content) (limit : Nat) : List UInt8 × Bool :=
  (content.bytes.take limit, decide (limit ≤ content.bytes.length) || content.whole)

/-- The variables of the loop, with the files it has opened for writing. -/
structure Progress where
  tree : Tree
  contents : Path → List UInt8
  total : Nat
  written : List Path

/-- What is left of an extraction: its result, the files it opened for writing and the decompressed
bytes it read. -/
structure Extraction where
  result : Except BackupError Manifest
  written : List Path
  bytesRead : Nat

section Extract

variable {δ : Type} (lib : ZipLibrary δ) (parseManifest : List UInt8 → Option Manifest)
  (accepts : Text → Bool) (zipPath dir : Path) (maxBytes : Nat)

/-- The file is cut before the entry is read; at most one byte more than the rest of the budget is
copied into it. -/
def copyEntry (d : δ) (i : Nat) (target : Path) (tree : Tree) (s : Progress) : Progress × Bool :=
  let contents := Function.update s.contents target []
  let data := copied (lib.contentAt d (contents zipPath) i) (maxBytes - s.total + 1)
  ({ tree := tree
     contents := Function.update contents target data.1
     total := s.total + data.1.length
     written := s.written ++ [target] }, data.2)

/-- The entries, one after the other. -/
def extractEntries (d : δ) : List Nat → Progress → Progress × Except BackupError Unit
  | [], s => (s, .ok ())
  | i :: rest, s =>
    match lib.nameAt d (s.contents zipPath) i with
    | none => (s, .error .corruptArchive)
    | some name =>
      match place accepts dir s.tree name with
      | .error e => (s, .error e)
      | .ok (.directory tree) => extractEntries d rest { s with tree := tree }
      | .ok (.file target tree) =>
        let copy := copyEntry lib zipPath maxBytes d i target tree s
        if !copy.2 then (copy.1, .error .io)
        else if maxBytes < copy.1.total then (copy.1, .error .corruptArchive)
        else extractEntries d rest copy.1

/-- The manifest must be read whole, as JSON of this program and format. -/
def readManifest (content : Content) : Except BackupError Manifest :=
  match if content.whole then parseManifest content.bytes else none with
  | none => .error .corruptArchive
  | some manifest =>
    if manifest.app ≠ "lyra".toList ∨ manifest.format ≠ formatVersion then
      .error .unsupportedFormat
    else .ok manifest

/-- From the manifest on. -/
def extractOpened (d : δ) (content : Content) (tree : Tree) (contents : Path → List UInt8) :
    Extraction :=
  match readManifest parseManifest content with
  | .error e => ⟨.error e, [], content.bytes.length⟩
  | .ok manifest =>
    let done := extractEntries lib accepts zipPath dir maxBytes d (List.range (lib.len d))
      { tree := tree, contents := contents, total := 0, written := [] }
    ⟨done.2.map fun _ => manifest, done.1.written, content.bytes.length + done.1.total⟩

def extractArchive (tree : Tree) (contents : Path → List UInt8) : Extraction :=
  if !tree.files.contains zipPath then ⟨.error .io, [], 0⟩
  else
    match lib.readDirectory (contents zipPath) with
    | none => ⟨.error .corruptArchive, [], 0⟩
    | some d =>
      match lib.byName d (contents zipPath) "manifest.json".toList with
      | none => ⟨.error .corruptArchive, [], 0⟩
      | some content =>
        extractOpened lib parseManifest accepts zipPath dir maxBytes d content tree contents

end Extract

/-! ## What the loop writes -/

/-- A name of a file in a directory. -/
def IsNormal (segment : Text) : Prop :=
  segment ≠ [] ∧ segment ≠ ['.'] ∧ segment ≠ ['.', '.'] ∧ '/' ∉ segment

theorem slash_not_mem {name piece : Text} (h : piece ∈ name.splitOn '/') : '/' ∉ piece := by
  rw [List.splitOn_eq_splitOnP] at h
  intro hmem
  have hsplit := mem_splitOnP h '/' hmem
  simp at hsplit

theorem pieceComponent_normal {piece segment : Text} (hpiece : '/' ∉ piece)
    (h : pieceComponent piece = some (.normal segment)) : IsNormal segment := by
  unfold pieceComponent at h
  split at h
  · cases h
  · cases h
  · cases h
  · rename_i h1 h2 h3
    obtain rfl := Component.normal.inj (Option.some.inj h)
    exact ⟨h1, h2, h3, hpiece⟩

theorem mem_of_pushNormal {cs : List Component} {out : Path} (h : pushNormal cs = some out)
    {segment : Text} (hsegment : segment ∈ out) : .normal segment ∈ cs := by
  induction cs generalizing out with
  | nil =>
    obtain rfl := Option.some.inj h
    cases hsegment
  | cons c cs ih =>
    cases c with
    | normal first =>
      obtain ⟨rest, hrest, rfl⟩ := Option.map_eq_some_iff.mp h
      rcases List.mem_cons.mp hsegment with rfl | hmem
      · exact List.mem_cons_self
      · exact List.mem_cons_of_mem _ (ih hrest hmem)
    | rootDir => cases h
    | curDir => cases h
    | parentDir => cases h

theorem mem_components {name segment : Text} (h : .normal segment ∈ components name) :
    ∃ piece ∈ name.splitOn '/', pieceComponent piece = some (.normal segment) := by
  unfold components at h
  split at h
  · cases h
  · rename_i first rest hsplit
    rw [hsplit]
    rcases List.mem_append.mp h with h | h
    · split at h
      · simp at h
      · split at h
        · simp at h
        · exact ⟨first, List.mem_cons_self, Option.mem_toList.mp h⟩
    · obtain ⟨piece, hmem, hpiece⟩ := List.mem_filterMap.mp h
      exact ⟨piece, List.mem_cons_of_mem _ hmem, hpiece⟩

/-- What is extracted has a name, and no component of it leads up. -/
theorem sanitizeEntryName_normal {name : Text} {rel : Path} (h : sanitizeEntryName name = some rel) :
    rel ≠ [] ∧ ∀ segment ∈ rel, IsNormal segment := by
  unfold sanitizeEntryName at h
  split at h
  · cases h
  · split at h
    · cases h
    · rename_i out hout
      split at h
      · cases h
      · rename_i hempty
        obtain rfl := Option.some.inj h
        refine ⟨fun hnil => hempty (by rw [hnil]; rfl), fun segment hsegment => ?_⟩
        obtain ⟨piece, hmem, hpiece⟩ := mem_components (mem_of_pushNormal hout hsegment)
        exact pieceComponent_normal (slash_not_mem hmem) hpiece

section Written

variable {δ : Type} {lib : ZipLibrary δ} {parseManifest : List UInt8 → Option Manifest}
  {accepts : Text → Bool} {zipPath dir : Path} {maxBytes : Nat} {d : δ}

/-- The path is below the directory, by names of files. -/
def Below (dir path : Path) : Prop :=
  ∃ rel, rel ≠ [] ∧ (∀ segment ∈ rel, IsNormal segment) ∧ path = dir ++ rel

theorem place_below {tree tree' : Tree} {name : Text} {target : Path}
    (h : place accepts dir tree name = .ok (.file target tree')) : Below dir target := by
  unfold place at h
  cases hrel : sanitizeEntryName name with
  | none =>
    rw [hrel] at h
    cases h
  | some rel =>
    obtain ⟨hne, hnormal⟩ := sanitizeEntryName_normal hrel
    simp only [hrel] at h
    split at h
    · cases h
    · split at h
      · split at h
        · cases h
        · cases h
      · split at h
        · cases h
        · cases h
          exact ⟨rel, hne, hnormal, rfl⟩

/-- Whatever the archive holds, the loop adds files below the directory. -/
theorem extractEntries_written (is : List Nat) (s : Progress) :
    ∃ more, (extractEntries lib accepts zipPath dir maxBytes d is s).1.written =
        s.written ++ more ∧ ∀ path ∈ more, Below dir path := by
  induction is generalizing s with
  | nil => exact ⟨[], (List.append_nil _).symm, fun path hpath => absurd hpath List.not_mem_nil⟩
  | cons i is ih =>
    have hsame : ∃ more, s.written = s.written ++ more ∧ ∀ path ∈ more, Below dir path :=
      ⟨[], (List.append_nil _).symm, fun path hpath => absurd hpath List.not_mem_nil⟩
    unfold extractEntries
    cases hname : lib.nameAt d (s.contents zipPath) i with
    | none => exact hsame
    | some name =>
      cases hplace : place accepts dir s.tree name with
      | error e => simpa only [hplace] using hsame
      | ok placed =>
        cases placed with
        | directory tree =>
          simp only [hplace]
          exact ih _
        | file target tree =>
          have hbelow := place_below hplace
          have hone : ∀ path ∈ [target], Below dir path := by
            intro path hpath
            rw [List.mem_singleton.mp hpath]
            exact hbelow
          simp only [hplace]
          split
          · exact ⟨[target], rfl, hone⟩
          · split
            · exact ⟨[target], rfl, hone⟩
            · obtain ⟨more, hmore, hrest⟩ := ih _
              refine ⟨target :: more, hmore.trans (by simp [copyEntry]), ?_⟩
              intro path hpath
              rcases List.mem_cons.mp hpath with rfl | hpath
              · exact hbelow
              · exact hrest path hpath

end Written

/-! ## The entries that the loop comes to -/

section Turns

variable {δ : Type} (lib : ZipLibrary δ) (accepts : Text → Bool) (zipPath dir : Path)
  (maxBytes : Nat) (d : δ) (bytes : List UInt8)

/-- The entries are there, have names that are taken, lie in nobody's way, can be read to their end
and hold no more bytes than the budget; the trees and the totals are those before and after them. -/
inductive Clears : List Nat → Tree → Nat → Tree → Nat → Prop
  | nil (tree : Tree) (total : Nat) : Clears [] tree total tree total
  | directory {i : Nat} {is : List Nat} {name : Text} {tree tree' after : Tree} {total sum : Nat} :
    lib.nameAt d bytes i = some name → place accepts dir tree name = .ok (.directory tree') →
    Clears is tree' total after sum → Clears (i :: is) tree total after sum
  | file {i : Nat} {is : List Nat} {name : Text} {target : Path} {tree tree' after : Tree}
      {total sum : Nat} :
    lib.nameAt d bytes i = some name → place accepts dir tree name = .ok (.file target tree') →
    (lib.contentAt d bytes i).whole = true →
    total + (lib.contentAt d bytes i).bytes.length ≤ maxBytes →
    Clears is tree' (total + (lib.contentAt d bytes i).bytes.length) after sum →
    Clears (i :: is) tree total after sum

/-- The file of an entry whose turn comes is not the archive, and within the budget, of which
`spent` bytes are gone before the entries. -/
def Turn (spent i : Nat) (tree : Tree) (total : Nat) : Prop :=
  ∀ name target tree', lib.nameAt d bytes i = some name →
    place accepts dir tree name = .ok (.file target tree') →
    target ≠ zipPath ∧
      spent + min (total + (lib.contentAt d bytes i).bytes.length) (maxBytes + 1) ≤ maxBytes + 1

/-- Every entry whose turn comes is harmless. -/
def Turns (spent : Nat) (is : List Nat) (tree : Tree) (total : Nat) : Prop :=
  ∀ before i after, is = before ++ i :: after → ∀ tree' total',
    Clears lib accepts dir maxBytes d bytes before tree total tree' total' →
    Turn lib accepts zipPath dir maxBytes d bytes spent i tree' total'

end Turns

section Loop

variable {δ : Type} {lib : ZipLibrary δ} {accepts : Text → Bool} {zipPath dir : Path}
  {maxBytes : Nat} {d : δ} {bytes : List UInt8} {spent i : Nat} {is : List Nat} {tree : Tree}
  {total : Nat}

/-- The first entry, then the others if it is passed. -/
theorem turns_cons : Turns lib accepts zipPath dir maxBytes d bytes spent (i :: is) tree total ↔
    Turn lib accepts zipPath dir maxBytes d bytes spent i tree total ∧
      ∀ tree' total', Clears lib accepts dir maxBytes d bytes [i] tree total tree' total' →
        Turns lib accepts zipPath dir maxBytes d bytes spent is tree' total' := by
  constructor
  · intro h
    refine ⟨h [] i is rfl tree total (.nil tree total), ?_⟩
    intro tree' total' hone before j after his tree'' total'' hbefore
    refine h (i :: before) j after (by rw [his]; rfl) tree'' total'' ?_
    cases hone with
    | directory hname hplace hrest =>
      cases hrest
      exact .directory hname hplace hbefore
    | file hname hplace hwhole hsize hrest =>
      cases hrest
      exact .file hname hplace hwhole hsize hbefore
  · rintro ⟨hfirst, hrest⟩ before j after his tree' total' hbefore
    cases before with
    | nil =>
      obtain ⟨rfl, rfl⟩ := List.cons.inj his
      cases hbefore
      exact hfirst
    | cons k before =>
      obtain ⟨rfl, rfl⟩ := List.cons.inj his
      cases hbefore with
      | directory hname hplace hclears =>
        exact hrest _ _ (.directory hname hplace (.nil _ _)) before j after rfl _ _ hclears
      | file hname hplace hwhole hsize hclears =>
        exact hrest _ _ (.file hname hplace hwhole hsize (.nil _ _)) before j after rfl _ _ hclears

theorem turns_nil : Turns lib accepts zipPath dir maxBytes d bytes spent [] tree total := by
  intro before i after h
  cases before <;> cases h

theorem turns_refused
    (h : ∀ name placed, lib.nameAt d bytes i = some name →
      place accepts dir tree name ≠ .ok placed) :
    Turns lib accepts zipPath dir maxBytes d bytes spent (i :: is) tree total := by
  refine turns_cons.mpr ⟨?_, ?_⟩
  · intro name target tree' hname hplace
    exact absurd hplace (h name _ hname)
  · intro tree' total' hclears
    cases hclears with
    | directory hname hplace _ => exact absurd hplace (h _ _ hname)
    | file hname hplace _ _ _ => exact absurd hplace (h _ _ hname)

theorem turns_directory {name : Text} {tree' : Tree} (hname : lib.nameAt d bytes i = some name)
    (hplace : place accepts dir tree name = .ok (.directory tree')) :
    Turns lib accepts zipPath dir maxBytes d bytes spent (i :: is) tree total ↔
      Turns lib accepts zipPath dir maxBytes d bytes spent is tree' total := by
  rw [turns_cons]
  constructor
  · rintro ⟨-, hrest⟩
    exact hrest tree' total (.directory hname hplace (.nil _ _))
  · intro hrest
    refine ⟨?_, ?_⟩
    · intro name' target tree'' hname' hplace'
      rw [hname] at hname'
      obtain rfl := Option.some.inj hname'
      rw [hplace] at hplace'
      cases hplace'
    · intro tree'' total' hclears
      cases hclears with
      | directory hname' hplace' hnil =>
        rw [hname] at hname'
        obtain rfl := Option.some.inj hname'
        rw [hplace] at hplace'
        cases hplace'
        cases hnil
        exact hrest
      | file hname' hplace' _ _ _ =>
        rw [hname] at hname'
        obtain rfl := Option.some.inj hname'
        rw [hplace] at hplace'
        cases hplace'

/-- A file, and behind it the others if it is read whole and within the budget. -/
theorem turns_file {name : Text} {target : Path} {tree' : Tree}
    (hname : lib.nameAt d bytes i = some name)
    (hplace : place accepts dir tree name = .ok (.file target tree')) :
    Turns lib accepts zipPath dir maxBytes d bytes spent (i :: is) tree total ↔
      (target ≠ zipPath ∧
        spent + min (total + (lib.contentAt d bytes i).bytes.length) (maxBytes + 1) ≤
          maxBytes + 1) ∧
      ((lib.contentAt d bytes i).whole = true →
        total + (lib.contentAt d bytes i).bytes.length ≤ maxBytes →
        Turns lib accepts zipPath dir maxBytes d bytes spent is tree'
          (total + (lib.contentAt d bytes i).bytes.length)) := by
  rw [turns_cons]
  constructor
  · rintro ⟨hfirst, hrest⟩
    refine ⟨hfirst name target tree' hname hplace, fun hwhole hsize => ?_⟩
    exact hrest _ _ (.file hname hplace hwhole hsize (.nil _ _))
  · rintro ⟨hfirst, hrest⟩
    refine ⟨?_, ?_⟩
    · intro name' target' tree'' hname' hplace'
      rw [hname] at hname'
      obtain rfl := Option.some.inj hname'
      rw [hplace] at hplace'
      cases hplace'
      exact hfirst
    · intro tree'' total' hclears
      cases hclears with
      | directory hname' hplace' _ =>
        rw [hname] at hname'
        obtain rfl := Option.some.inj hname'
        rw [hplace] at hplace'
        cases hplace'
      | file hname' hplace' hwhole hsize hnil =>
        rw [hname] at hname'
        obtain rfl := Option.some.inj hname'
        rw [hplace] at hplace'
        cases hplace'
        cases hnil
        exact hrest hwhole hsize

/-- What a copy leaves, if it is not into the archive. -/
theorem copyEntry_spec {s : Progress} {target : Path} (hbytes : s.contents zipPath = bytes)
    (htarget : target ≠ zipPath) {copy : Progress × Bool}
    (h : copyEntry lib zipPath maxBytes d i target tree s = copy) :
    copy.1.tree = tree ∧ copy.1.contents zipPath = bytes ∧ copy.1.written = s.written ++ [target] ∧
      copy.1.total =
        s.total + min (maxBytes - s.total + 1) (lib.contentAt d bytes i).bytes.length ∧
      (copy.2 = true ↔ maxBytes - s.total + 1 ≤ (lib.contentAt d bytes i).bytes.length ∨
        (lib.contentAt d bytes i).whole = true) := by
  have hread : Function.update s.contents target [] zipPath = bytes := by
    rw [Function.update_of_ne (Ne.symm htarget)]
    exact hbytes
  simp only [copyEntry, hread] at h
  subst h
  refine ⟨rfl, ?_, rfl, ?_, ?_⟩
  · exact (Function.update_of_ne (Ne.symm htarget) _ _).trans hread
  · simp [copied]
  · simp [copied]

/-- A copy into the archive is not undone. -/
theorem archive_lost (accepts : Text → Bool) (dir : Path) (is : List Nat) {s : Progress}
    {target : Path} (hsame : target = zipPath) {copy : Progress × Bool}
    (h : copyEntry lib zipPath maxBytes d i target tree s = copy) :
    zipPath ∈ copy.1.written ∧
      zipPath ∈ (extractEntries lib accepts zipPath dir maxBytes d is copy.1).1.written := by
  have hcopy : zipPath ∈ copy.1.written := by
    rw [← h, ← hsame]
    simp [copyEntry]
  obtain ⟨more, hmore, -⟩ : ∃ more,
      (extractEntries lib accepts zipPath dir maxBytes d is copy.1).1.written =
        copy.1.written ++ more ∧ ∀ path ∈ more, Below dir path :=
    extractEntries_written is copy.1
  exact ⟨hcopy, by rw [hmore]; exact List.mem_append_left _ hcopy⟩

/-- The loop spares the archive and keeps to the budget exactly if every entry whose turn comes
does.  As long as it does, the entries are read from the archive as it was. -/
theorem extractEntries_iff (is : List Nat) (s : Progress) (hbytes : s.contents zipPath = bytes)
    (hkept : zipPath ∉ s.written) (htotal : s.total ≤ maxBytes) :
    (zipPath ∉ (extractEntries lib accepts zipPath dir maxBytes d is s).1.written ∧
        spent + (extractEntries lib accepts zipPath dir maxBytes d is s).1.total ≤ maxBytes + 1) ↔
      spent + s.total ≤ maxBytes + 1 ∧
        Turns lib accepts zipPath dir maxBytes d bytes spent is s.tree s.total := by
  induction is generalizing s with
  | nil =>
    unfold extractEntries
    exact ⟨fun h => ⟨h.2, turns_nil⟩, fun h => ⟨hkept, h.1⟩⟩
  | cons i is ih =>
    unfold extractEntries
    rw [hbytes]
    cases hname : lib.nameAt d bytes i with
    | none =>
      have hturns : Turns lib accepts zipPath dir maxBytes d bytes spent (i :: is) s.tree s.total := by
        apply turns_refused
        intro name placed hname'
        rw [hname] at hname'
        cases hname'
      exact ⟨fun h => ⟨h.2, hturns⟩, fun h => ⟨hkept, h.1⟩⟩
    | some name =>
      cases hplace : place accepts dir s.tree name with
      | error e =>
        have hturns :
            Turns lib accepts zipPath dir maxBytes d bytes spent (i :: is) s.tree s.total := by
          apply turns_refused
          intro name' placed hname' hplaced
          rw [hname] at hname'
          obtain rfl := Option.some.inj hname'
          rw [hplace] at hplaced
          cases hplaced
        simp only [hplace]
        exact ⟨fun h => ⟨h.2, hturns⟩, fun h => ⟨hkept, h.1⟩⟩
      | ok placed =>
        cases placed with
        | directory tree =>
          simp only [hplace]
          rw [turns_directory hname hplace]
          exact ih { s with tree := tree } hbytes hkept htotal
        | file target tree =>
          simp only [hplace]
          rw [turns_file hname hplace]
          generalize hcopy : copyEntry lib zipPath maxBytes d i target tree s = copy
          by_cases htarget : target = zipPath
          · -- the archive is cut, whatever comes after
            obtain ⟨hnow, hlater⟩ := archive_lost accepts dir is htarget hcopy
            refine ⟨fun h => absurd h.1 ?_, fun h => absurd htarget h.2.1.1⟩
            rw [not_not]
            split
            · exact hnow
            · split
              · exact hnow
              · exact hlater
          · obtain ⟨htree, hcontents, hwritten, hsum, hwhole⟩ :=
              copyEntry_spec hbytes htarget hcopy
            have hkept' : zipPath ∉ copy.1.written := by
              rw [hwritten]
              simp [hkept, Ne.symm htarget]
            generalize (lib.contentAt d bytes i).bytes.length = size at *
            have hnext := ih copy.1 hcontents hkept'
            rw [htree] at hnext
            cases hok : copy.2 with
            | false =>
              -- the entry cannot be read, and is not larger than the budget
              rw [hok] at hwhole
              simp only [Bool.false_eq_true, false_iff, not_or, Nat.not_le, Bool.not_eq_true] at hwhole
              simp only [Bool.not_false, if_true, hwhole.2, Bool.false_eq_true, false_implies,
                and_true]
              constructor
              · rintro ⟨-, hfits⟩
                exact ⟨by omega, htarget, by omega⟩
              · rintro ⟨-, -, hfits⟩
                exact ⟨hkept', by omega⟩
            | true =>
              simp only [Bool.not_true, Bool.false_eq_true, if_false]
              split
              · rename_i hover
                dsimp only
                constructor
                · rintro ⟨-, hfits⟩
                  exact ⟨by omega, ⟨htarget, by omega⟩, fun _ hsize => by omega⟩
                · rintro ⟨-, ⟨-, hfits⟩, -⟩
                  exact ⟨hkept', by omega⟩
              · rename_i hwithin
                have hsize : copy.1.total = s.total + size := by omega
                have hread : (lib.contentAt d bytes i).whole = true :=
                  (hwhole.mp hok).resolve_left (by omega)
                rw [hnext (by omega), hsize]
                constructor
                · rintro ⟨hfits, hrest⟩
                  exact ⟨by omega, ⟨htarget, by omega⟩, fun _ _ => hrest⟩
                · rintro ⟨-, ⟨-, hfits⟩, hrest⟩
                  exact ⟨by omega, hrest hread (by omega)⟩

end Loop

/-! ## The whole archive -/

/-- Files are written below the directory only, the archive is never opened for writing, and at most
one byte more than the budget is read. -/
structure Confined (zipPath dir : Path) (maxBytes : Nat) (e : Extraction) : Prop where
  below : ∀ path ∈ e.written, Below dir path
  archiveKept : zipPath ∉ e.written
  bounded : e.bytesRead ≤ maxBytes + 1

section Whole

variable {δ : Type} (lib : ZipLibrary δ) (parseManifest : List UInt8 → Option Manifest)
  (accepts : Text → Bool) (zipPath dir : Path) (maxBytes : Nat) (tree : Tree)
  (contents : Path → List UInt8)

/-- The manifest is within the budget; where it is accepted, so is every entry whose turn comes
together with the manifest, and none of their files is the archive. -/
def HarmlessEntries (d : δ) (content : Content) : Prop :=
  content.bytes.length ≤ maxBytes + 1 ∧
    ∀ manifest, readManifest parseManifest content = .ok manifest →
      Turns lib accepts zipPath dir maxBytes d (contents zipPath) content.bytes.length
        (List.range (lib.len d)) tree 0

def Harmless : Prop :=
  ∀ d content, zipPath ∈ tree.files → lib.readDirectory (contents zipPath) = some d →
    lib.byName d (contents zipPath) "manifest.json".toList = some content →
    HarmlessEntries lib parseManifest accepts zipPath dir maxBytes tree contents d content

variable {zipPath dir maxBytes}

theorem confined_nothing (result : Except BackupError Manifest) (n : Nat) :
    Confined zipPath dir maxBytes ⟨result, [], n⟩ ↔ n ≤ maxBytes + 1 :=
  ⟨fun h => h.bounded, fun h => ⟨fun _ hpath => absurd hpath List.not_mem_nil,
    List.not_mem_nil, h⟩⟩

variable {lib parseManifest accepts tree contents}

theorem extractOpened_confined {d : δ} {content : Content} :
    Confined zipPath dir maxBytes
        (extractOpened lib parseManifest accepts zipPath dir maxBytes d content tree contents) ↔
      HarmlessEntries lib parseManifest accepts zipPath dir maxBytes tree contents d content := by
  unfold extractOpened HarmlessEntries
  cases hmanifest : readManifest parseManifest content with
  | error e =>
    rw [confined_nothing]
    exact ⟨fun h => ⟨h, fun _ h' => by cases h'⟩, fun h => h.1⟩
  | ok manifest =>
    have hloop : (zipPath ∉ (extractEntries lib accepts zipPath dir maxBytes d
          (List.range (lib.len d)) ⟨tree, contents, 0, []⟩).1.written ∧
        content.bytes.length + (extractEntries lib accepts zipPath dir maxBytes d
          (List.range (lib.len d)) ⟨tree, contents, 0, []⟩).1.total ≤ maxBytes + 1) ↔
        content.bytes.length + 0 ≤ maxBytes + 1 ∧
          Turns lib accepts zipPath dir maxBytes d (contents zipPath) content.bytes.length
            (List.range (lib.len d)) tree 0 :=
      extractEntries_iff _ ⟨tree, contents, 0, []⟩ rfl List.not_mem_nil (Nat.zero_le _)
    obtain ⟨more, hmore, hbelow⟩ : ∃ more,
        (extractEntries lib accepts zipPath dir maxBytes d (List.range (lib.len d))
          ⟨tree, contents, 0, []⟩).1.written = [] ++ more ∧ ∀ path ∈ more, Below dir path :=
      extractEntries_written _ ⟨tree, contents, 0, []⟩
    constructor
    · intro h
      obtain ⟨hfits, hturns⟩ := hloop.mp ⟨h.archiveKept, h.bounded⟩
      exact ⟨hfits, fun _ _ => hturns⟩
    · rintro ⟨hfits, hturns⟩
      obtain ⟨hkept, hbounded⟩ := hloop.mpr ⟨hfits, hturns manifest rfl⟩
      refine ⟨?_, hkept, hbounded⟩
      intro path hpath
      apply hbelow path
      rw [← List.nil_append more, ← hmore]
      exact hpath

/-- An extraction is confined exactly if the archive is harmless. -/
theorem confined_iff (lib : ZipLibrary δ) (parseManifest : List UInt8 → Option Manifest)
    (accepts : Text → Bool) (zipPath dir : Path) (maxBytes : Nat) (tree : Tree)
    (contents : Path → List UInt8) :
    Confined zipPath dir maxBytes
        (extractArchive lib parseManifest accepts zipPath dir maxBytes tree contents) ↔
      Harmless lib parseManifest accepts zipPath dir maxBytes tree contents := by
  unfold extractArchive Harmless
  by_cases hfile : zipPath ∈ tree.files
  · rw [if_neg (by simpa using hfile)]
    cases hd : lib.readDirectory (contents zipPath) with
    | none =>
      dsimp only
      rw [confined_nothing]
      exact ⟨fun _ d content _ hd' => (by cases hd'), fun _ => Nat.zero_le _⟩
    | some d =>
      cases hcontent : lib.byName d (contents zipPath) "manifest.json".toList with
      | none =>
        simp only [hcontent]
        rw [confined_nothing]
        refine ⟨?_, fun _ => Nat.zero_le _⟩
        intro _ d' content _ hd' hcontent'
        obtain rfl := Option.some.inj hd'
        rw [hcontent] at hcontent'
        cases hcontent'
      | some content =>
        simp only [hcontent]
        rw [extractOpened_confined]
        constructor
        · intro h d' content' _ hd' hcontent'
          obtain rfl := Option.some.inj hd'
          obtain rfl := Option.some.inj (hcontent.symm.trans hcontent')
          exact h
        · intro h
          exact h d content hfile rfl hcontent
  · rw [if_pos (by simpa using hfile), confined_nothing]
    exact ⟨fun _ d content hfile' => absurd hfile' hfile, fun _ => Nat.zero_le _⟩

end Whole

/-! ## An archive that names itself -/

/-- A library for archives that are listed outside; nothing is read from an empty file. -/
def listed (entries : List (Text × List UInt8)) : ZipLibrary (List (Text × List UInt8)) where
  readDirectory bytes := if bytes.isEmpty then none else some entries
  len d := d.length
  byName d _ name := (d.find? (·.1 == name)).map fun e => ⟨e.2, true⟩
  nameAt d _ i := d[i]?.map Prod.fst
  contentAt d bytes i :=
    if bytes.isEmpty then ⟨[], false⟩ else ⟨(d[i]?.map Prod.snd).getD [], true⟩

/-- An entry with the name of the staged archive cuts it while it is read. -/
theorem archive_overwritten :
    ¬ Confined [['d'], "archive.zip".toList] [['d']] maxExtractedBytes
      (extractArchive (listed [("manifest.json".toList, [123, 125]), ("archive.zip".toList, [1])])
        (fun _ => some ⟨1, "lyra".toList⟩) (fun _ => true) [['d'], "archive.zip".toList] [['d']]
        maxExtractedBytes ⟨[[['d']]], [[['d'], "archive.zip".toList]]⟩ fun _ => [80, 75]) := by
  intro h
  exact h.archiveKept (by decide)

end Lyra.Extract
