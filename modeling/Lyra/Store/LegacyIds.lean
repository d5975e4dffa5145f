import Lyra.Lib.Rekey
import Lyra.Store.Codec

/-!
# Bare UIDs

Migration 0010 put the folder in front of the UIDs of IMAP rows; a process that still ran the older
program could store bare UIDs after it.  Migration 0011 drops a bare row whose folder-scoped twin is
in its folder, and puts the folder in front of the others.

* `mergeLegacy_eq_none`: the second statement fails where a twin is in another folder;
* `merged_of_free`: else every bare row is represented, once;
* `merges_iff`: exactly the tables without displaced twins are migrated.
-/

namespace Lyra

open Lyra.Lib
open Lyra.Lib.KeyedTable (clash)

/-! ## The migration -/

/-- An account, as far as the migration reads it. -/
structure AccountProtocols where
  id : AccountId
  receiveProtocol : Option Text
  protocol : Text
  deriving DecidableEq, Repr

/-- `SELECT id FROM mail_account WHERE COALESCE(receive_protocol, protocol) <> 'jmap'`. -/
def imapAccounts (accounts : List AccountProtocols) : List AccountId :=
  (accounts.filter fun a => a.receiveProtocol.getD a.protocol ≠ "jmap".toList).map (·.id)

section Migration

variable (accounts : List AccountProtocols)

/-- The row of an IMAP account whose id has no colon. -/
def isBare (r : MessageRow) : Bool :=
  r.externalId.any (fun e => !e.contains ':') && (imapAccounts accounts).contains r.accountId

/-- `folder_id || ':' || external_id`. -/
def scopedId (r : MessageRow) : Option Text := r.externalId.map fun e => r.folderId ++ ':' :: e

def rekeyed (r : MessageRow) : MessageRow := { r with externalId := scopedId r }

def isTwin (r twin : MessageRow) : Bool :=
  twin.accountId == r.accountId && twin.folderId == r.folderId &&
    (scopedId r).isSome && twin.externalId == scopedId r

/-- The first statement. -/
def dropTwins (rows : List MessageRow) : List MessageRow :=
  rows.filter fun r => !(isBare accounts r && rows.any (isTwin r))

/-- Migration 0011; `none` where the uniqueness constraint is violated. -/
def mergeLegacy (rows : List MessageRow) : Option (List MessageRow) :=
  let rows := dropTwins accounts rows
  updateEach MessageRow.id MessageRow.key rekeyed (rows.filter (isBare accounts)) rows

/-! ## The tables there can be -/

/-- The ids that the two programs give to new rows. -/
inductive NewRow (r : MessageRow) : Prop
  | bare (uid : Uid) (himap : r.accountId ∈ imapAccounts accounts)
      (hid : r.externalId = some (decimal uid))
  | folderScoped (uid : Uid) (himap : r.accountId ∈ imapAccounts accounts)
      (hid : r.externalId = some (imapMessageExternalId r.folderId uid))
  | jmap (hjmap : r.accountId ∉ imapAccounts accounts)
  | local_ (hid : r.externalId = none)

def moveTo (dest : FolderId) (r : MessageRow) : MessageRow := { r with folderId := dest }

/-- A moved row keeps its external id. -/
inductive Produced : MessageTable → Prop
  | empty : Produced .empty
  | insert {t t' : MessageTable} {r : MessageRow} (h : Produced t) (hrow : NewRow accounts r)
      (hinsert : t.insert r = some t') : Produced t'
  | move {t : MessageTable} (h : Produced t) (id : Nat) (dest : FolderId) :
      Produced (t.updateWhere (fun r => r.id == id) (moveTo dest) (fun _ => rfl) fun _ => rfl)
  | delete {t : MessageTable} (h : Produced t) (p : MessageRow → Bool) :
      Produced (t.deleteWhere p)

/-! ## What it should do -/

/-- The table `rows'` is `rows` with the bare rows merged into folder-scoped ones. -/
structure Merged (rows rows' : List MessageRow) : Prop where
  ids : (rows'.map MessageRow.id).Nodup
  distinct : KeysDistinct MessageRow.key rows'
  jmap : ∀ r : MessageRow, r.accountId ∉ imapAccounts accounts → (r ∈ rows' ↔ r ∈ rows)
  others : ∀ r ∈ rows, isBare accounts r = false → r ∈ rows'
  represented : ∀ r ∈ rows, isBare accounts r = true →
    ∃ r' ∈ rows', r'.key = (rekeyed r).key ∧ r'.folderId = r.folderId ∧
      ∀ r'' ∈ rows', r''.key = (rekeyed r).key → r'' = r'
  deleted : ∀ r ∈ rows, (∀ r' ∈ rows', r'.id ≠ r.id) →
    isBare accounts r = true ∧ ∃ twin ∈ rows', isTwin r twin = true

/-- Every folder-scoped twin of a bare row is in the folder of the row. -/
def NoDisplacedTwin (rows : List MessageRow) : Prop :=
  ∀ r ∈ rows, isBare accounts r = true → ∀ s ∈ rows, s.key = (rekeyed r).key →
    s.folderId = r.folderId

end Migration

/-! ## Bare rows -/

section Rows

variable {accounts : List AccountProtocols} {r s : MessageRow} {rows : List MessageRow}
  {t : MessageTable}

theorem isBare_iff : isBare accounts r = true ↔
    (∃ e, r.externalId = some e ∧ ':' ∉ e) ∧ r.accountId ∈ imapAccounts accounts := by
  unfold isBare
  rw [Bool.and_eq_true, List.contains_iff_mem]
  cases r.externalId with
  | none => simp
  | some e => simp

theorem rekeyed_id (r : MessageRow) : (rekeyed r).id = r.id := rfl

theorem key_rekeyed {e : Text} (he : r.externalId = some e) :
    (rekeyed r).key = some (r.accountId, r.folderId ++ ':' :: e) := by
  simp [rekeyed, scopedId, MessageRow.key, he]

theorem key_eq_some {a : AccountId} {e : Text} :
    r.key = some (a, e) ↔ r.accountId = a ∧ r.externalId = some e := by
  unfold MessageRow.key
  rw [Option.map_eq_some_iff]
  constructor
  · rintro ⟨e', he, hkey⟩
    obtain ⟨rfl, rfl⟩ := Prod.mk.inj hkey
    exact ⟨rfl, he⟩
  · rintro ⟨rfl, he⟩
    exact ⟨e, he, rfl⟩

/-- New ids have a colon, so a bare row never holds one. -/
theorem clash_bare (hr : isBare accounts r = true) (hs : isBare accounts s = true) :
    clash MessageRow.key (rekeyed r) s = false := by
  obtain ⟨⟨e, he, -⟩, -⟩ := isBare_iff.mp hr
  obtain ⟨⟨d, hd, hcolon⟩, -⟩ := isBare_iff.mp hs
  unfold clash
  rw [key_rekeyed he, Bool.and_eq_false_iff]
  refine .inr (decide_eq_false fun h => hcolon ?_)
  obtain ⟨-, hid⟩ := key_eq_some.mp h
  rw [hd] at hid
  rw [Option.some.inj hid]
  exact List.mem_append_right _ List.mem_cons_self

/-- Two bare rows get different ids. -/
theorem clash_rekeyed (t : MessageTable) (hr : r ∈ t.rows) (hs : s ∈ t.rows)
    (hrbare : isBare accounts r = true) (hsbare : isBare accounts s = true) (hne : s.id ≠ r.id) :
    clash MessageRow.key (rekeyed r) (rekeyed s) = false := by
  obtain ⟨⟨e, he, hecolon⟩, -⟩ := isBare_iff.mp hrbare
  obtain ⟨⟨d, hd, hdcolon⟩, -⟩ := isBare_iff.mp hsbare
  unfold clash
  rw [key_rekeyed he, key_rekeyed hd, Bool.and_eq_false_iff]
  refine .inr (decide_eq_false fun h => hne ?_)
  obtain ⟨haccount, hid⟩ := Prod.mk.inj (Option.some.inj h)
  obtain ⟨-, rfl⟩ := append_colon_inj hdcolon hecolon hid
  rw [t.eq_of_key hs hr (key_eq_some.mpr ⟨haccount, hd⟩) (key_eq_some.mpr ⟨rfl, he⟩)]

theorem isTwin_iff {e : Text} (he : r.externalId = some e) :
    isTwin r s = true ↔ s.key = (rekeyed r).key ∧ s.folderId = r.folderId := by
  unfold isTwin
  rw [key_rekeyed he, key_eq_some, scopedId, he]
  simp only [Bool.and_eq_true, beq_iff_eq, Option.map_some, Option.isSome_some, and_true]
  constructor
  · rintro ⟨⟨haccount, hfolder⟩, hid⟩
    exact ⟨⟨haccount, hid⟩, hfolder⟩
  · rintro ⟨⟨haccount, hid⟩, hfolder⟩
    exact ⟨⟨haccount, hfolder⟩, hid⟩

theorem not_isBare_of_key {e : Text} (he : r.externalId = some e)
    (hkey : s.key = (rekeyed r).key) : isBare accounts s = false := by
  rw [key_rekeyed he, key_eq_some] at hkey
  rw [Bool.eq_false_iff]
  intro hbare
  obtain ⟨⟨d, hd, hcolon⟩, -⟩ := isBare_iff.mp hbare
  rw [hd] at hkey
  apply hcolon
  rw [Option.some.inj hkey.2]
  exact List.mem_append_right _ List.mem_cons_self

/-! ## The first statement -/

theorem mem_dropTwins : r ∈ dropTwins accounts rows ↔
    r ∈ rows ∧ ¬(isBare accounts r = true ∧ ∃ w ∈ rows, isTwin r w = true) := by
  unfold dropTwins
  rw [List.mem_filter, Bool.not_eq_true', ← Bool.not_eq_true, Bool.and_eq_true, List.any_eq_true]

theorem mem_dropTwins_of_not_isBare (hr : r ∈ rows) (hbare : isBare accounts r = false) :
    r ∈ dropTwins accounts rows := by
  refine mem_dropTwins.mpr ⟨hr, fun h => ?_⟩
  rw [hbare] at h
  cases h.1

theorem dropTwins_sublist : List.Sublist (dropTwins accounts rows) rows := List.filter_sublist

/-- The bare rows that are left, as the second statement finds them. -/
def leftBare (accounts : List AccountProtocols) (rows : List MessageRow) : List MessageRow :=
  (dropTwins accounts rows).filter (isBare accounts)

theorem mem_leftBare : r ∈ leftBare accounts rows ↔
    r ∈ dropTwins accounts rows ∧ isBare accounts r = true := List.mem_filter

theorem nodup_dropTwins (t : MessageTable) :
    ((dropTwins accounts t.rows).map MessageRow.id).Nodup :=
  (dropTwins_sublist.map MessageRow.id).nodup t.ids

theorem mem_leftBare_of_id (t : MessageTable) (hr : r ∈ dropTwins accounts t.rows)
    (hid : r.id ∈ (leftBare accounts t.rows).map MessageRow.id) :
    r ∈ leftBare accounts t.rows := by
  obtain ⟨s, hs, hsid⟩ := List.mem_map.mp hid
  have hsrows := (mem_dropTwins.mp (mem_leftBare.mp hs).1).1
  rwa [← t.eq_of_pk hsrows (mem_dropTwins.mp hr).1 hsid]

/-! ## The second statement -/

theorem leftBare_apart (t : MessageTable) :
    Apart MessageRow.id MessageRow.key rekeyed (leftBare accounts t.rows)
      (dropTwins accounts t.rows) ((leftBare accounts t.rows).map MessageRow.id) := by
  intro a ha x hx hid hne
  obtain ⟨had, habare⟩ := mem_leftBare.mp ha
  obtain ⟨hxd, hxbare⟩ := mem_leftBare.mp (mem_leftBare_of_id t hx hid)
  exact ⟨clash_rekeyed t (mem_dropTwins.mp had).1 (mem_dropTwins.mp hxd).1 habare hxbare hne,
    clash_bare habare hxbare⟩

theorem clash_of_key (hr : isBare accounts r = true) (hkey : s.key = (rekeyed r).key) :
    clash MessageRow.key (rekeyed r) s = true := by
  obtain ⟨⟨e, he, -⟩, -⟩ := isBare_iff.mp hr
  unfold clash
  rw [hkey, key_rekeyed he]
  simp

theorem key_of_clash (h : clash MessageRow.key (rekeyed r) s = true) : s.key = (rekeyed r).key :=
  of_decide_eq_true (Bool.and_eq_true_iff.mp h).2

/-- No other row holds a new id where no twin is displaced, and only there. -/
theorem free_iff (t : MessageTable) :
    Free MessageRow.id MessageRow.key rekeyed (leftBare accounts t.rows)
        (dropTwins accounts t.rows) ((leftBare accounts t.rows).map MessageRow.id) ↔
      NoDisplacedTwin accounts t.rows := by
  constructor
  · intro hfree r hr hbare s hs hkey
    obtain ⟨⟨e, he, -⟩, -⟩ := isBare_iff.mp hbare
    have hsbare : isBare accounts s = false := not_isBare_of_key he hkey
    by_cases htwin : ∃ w ∈ t.rows, isTwin r w = true
    · obtain ⟨w, hw, hrw⟩ := htwin
      obtain ⟨hwkey, hwfolder⟩ := (isTwin_iff he).mp hrw
      rw [key_rekeyed he] at hkey hwkey
      rwa [t.eq_of_key hs hw hkey hwkey]
    · have hrleft : r ∈ leftBare accounts t.rows :=
        mem_leftBare.mpr ⟨mem_dropTwins.mpr ⟨hr, fun h => htwin h.2⟩, hbare⟩
      have hsd := mem_dropTwins_of_not_isBare hs hsbare
      have hnot : s.id ∉ (leftBare accounts t.rows).map MessageRow.id := by
        intro hid
        have hsleft := (mem_leftBare.mp (mem_leftBare_of_id t hsd hid)).2
        rw [hsbare] at hsleft
        cases hsleft
      have hno := hfree r hrleft s hsd hnot
      rw [clash_of_key hbare hkey] at hno
      cases hno
  · intro hno r hr x hx _
    obtain ⟨hrd, hbare⟩ := mem_leftBare.mp hr
    obtain ⟨hrrows, hkept⟩ := mem_dropTwins.mp hrd
    obtain ⟨⟨e, he, -⟩, -⟩ := isBare_iff.mp hbare
    have hxrows := (mem_dropTwins.mp hx).1
    rw [Bool.eq_false_iff]
    intro hclash
    have hkey := key_of_clash hclash
    exact hkept ⟨hbare, x, hxrows, (isTwin_iff he).mpr ⟨hkey, hno r hrrows hbare x hxrows hkey⟩⟩

theorem nodup_leftBare (t : MessageTable) :
    ((leftBare accounts t.rows).map MessageRow.id).Nodup :=
  (List.filter_sublist.map MessageRow.id).nodup (nodup_dropTwins t)

/-- The table after both statements. -/
def mergedRows (accounts : List AccountProtocols) (rows : List MessageRow) : List MessageRow :=
  (dropTwins accounts rows).map fun r => if isBare accounts r then rekeyed r else r

theorem changed_leftBare (t : MessageTable) :
    changed MessageRow.id rekeyed ((leftBare accounts t.rows).map MessageRow.id)
      (dropTwins accounts t.rows) = mergedRows accounts t.rows := by
  refine List.map_congr_left fun r hr => ?_
  have hiff : r.id ∈ (leftBare accounts t.rows).map MessageRow.id ↔ isBare accounts r = true := by
    constructor
    · intro hid
      exact (mem_leftBare.mp (mem_leftBare_of_id t hr hid)).2
    · intro hbare
      exact List.mem_map.mpr ⟨r, mem_leftBare.mpr ⟨hr, hbare⟩, rfl⟩
  exact if_congr hiff rfl rfl

theorem mergeLegacy_of_free (t : MessageTable) (h : NoDisplacedTwin accounts t.rows) :
    mergeLegacy accounts t.rows = some (mergedRows accounts t.rows) := by
  rw [← changed_leftBare]
  exact (updateEach_eq rekeyed_id (nodup_leftBare t) (leftBare_apart t)).1 ((free_iff t).mpr h)

theorem mergeLegacy_eq_none (t : MessageTable) (h : ¬NoDisplacedTwin accounts t.rows) :
    mergeLegacy accounts t.rows = none :=
  (updateEach_eq rekeyed_id (nodup_leftBare t) (leftBare_apart t)).2 (mt (free_iff t).mp h)

/-! ## The migrated table -/

theorem mem_mergedRows_of_not_isBare (hr : r ∈ rows) (hbare : isBare accounts r = false) :
    r ∈ mergedRows accounts rows :=
  List.mem_map.mpr ⟨r, mem_dropTwins_of_not_isBare hr hbare, by rw [hbare]; rfl⟩

theorem rekeyed_mem_mergedRows (hr : r ∈ dropTwins accounts rows)
    (hbare : isBare accounts r = true) : rekeyed r ∈ mergedRows accounts rows :=
  List.mem_map.mpr ⟨r, hr, by rw [hbare]; rfl⟩

theorem not_isBare_of_jmap (h : r.accountId ∉ imapAccounts accounts) :
    isBare accounts r = false := by
  rw [Bool.eq_false_iff]
  intro hbare
  exact h (isBare_iff.mp hbare).2

theorem distinct_mergedRows (t : MessageTable) (h : NoDisplacedTwin accounts t.rows) :
    KeysDistinct MessageRow.key (mergedRows accounts t.rows) := by
  rw [← changed_leftBare]
  exact keysDistinct_changed (nodup_dropTwins t) (t.distinct.sublist dropTwins_sublist)
    (fun x hx hid => mem_leftBare_of_id t hx hid) (leftBare_apart t) ((free_iff t).mpr h)

theorem merged_of_free (t : MessageTable) (h : NoDisplacedTwin accounts t.rows) :
    Merged accounts t.rows (mergedRows accounts t.rows) where
  ids := by
    rw [← changed_leftBare, map_pk_changed rekeyed_id]
    exact nodup_dropTwins t
  distinct := distinct_mergedRows t h
  jmap := by
    intro r hjmap
    constructor
    · intro hr
      obtain ⟨x, hx, hxr⟩ := List.mem_map.mp hr
      split at hxr
      · rename_i hbare
        subst hxr
        exact absurd (isBare_iff.mp hbare).2 hjmap
      · subst hxr
        exact (mem_dropTwins.mp hx).1
    · intro hr
      exact mem_mergedRows_of_not_isBare hr (not_isBare_of_jmap hjmap)
  others _ hr hbare := mem_mergedRows_of_not_isBare hr hbare
  represented := by
    intro r hr hbare
    obtain ⟨⟨e, he, -⟩, -⟩ := isBare_iff.mp hbare
    have honly : ∀ r' ∈ mergedRows accounts t.rows, r'.key = (rekeyed r).key →
        ∀ r'' ∈ mergedRows accounts t.rows, r''.key = (rekeyed r).key → r'' = r' := by
      intro r' hr' hkey' r'' hr'' hkey''
      rw [key_rekeyed he] at hkey' hkey''
      exact (distinct_mergedRows t h).eq_of_key hr'' hr' hkey'' hkey'
    by_cases htwin : ∃ w ∈ t.rows, isTwin r w = true
    · obtain ⟨w, hw, hrw⟩ := htwin
      obtain ⟨hkey, hfolder⟩ := (isTwin_iff he).mp hrw
      have hwbare : isBare accounts w = false := not_isBare_of_key he hkey
      have hmem := mem_mergedRows_of_not_isBare hw hwbare
      exact ⟨w, hmem, hkey, hfolder, honly w hmem hkey⟩
    · have hmem := rekeyed_mem_mergedRows (mem_dropTwins.mpr ⟨hr, fun h => htwin h.2⟩) hbare
      exact ⟨rekeyed r, hmem, rfl, rfl, honly _ hmem rfl⟩
  deleted := by
    intro r hr hgone
    have hdropped : isBare accounts r = true ∧ ∃ w ∈ t.rows, isTwin r w = true := by
      by_contra hkept
      have hrd := mem_dropTwins.mpr ⟨hr, hkept⟩
      cases hbare : isBare accounts r with
      | true => exact hgone _ (rekeyed_mem_mergedRows hrd hbare) rfl
      | false => exact hgone r (mem_mergedRows_of_not_isBare hr hbare) rfl
    obtain ⟨hbare, w, hw, hrw⟩ := hdropped
    obtain ⟨⟨e, he, -⟩, -⟩ := isBare_iff.mp hbare
    have hkey := ((isTwin_iff he).mp hrw).1
    exact ⟨hbare, w, mem_mergedRows_of_not_isBare hw (not_isBare_of_key he hkey), hrw⟩

end Rows

/-- The migration goes through and does what it should exactly where no twin of a bare row is in
another folder. -/
theorem merges_iff (accounts : List AccountProtocols) (t : MessageTable) :
    (∃ rows', mergeLegacy accounts t.rows = some rows' ∧ Merged accounts t.rows rows') ↔
      NoDisplacedTwin accounts t.rows := by
  constructor
  · rintro ⟨rows', hmerge, -⟩
    by_contra h
    rw [mergeLegacy_eq_none t h] at hmerge
    cases hmerge
  · intro h
    exact ⟨_, mergeLegacy_of_free t h, merged_of_free t h⟩

def imapAccount : AccountProtocols where
  id := ['a']
  receiveProtocol := none
  protocol := "imap".toList

def movedRow : MessageRow where
  id := 1
  accountId := ['a']
  folderId := ['f']
  externalId := some (imapMessageExternalId ['f'] 7)

def lateRow : MessageRow where
  id := 2
  accountId := ['a']
  folderId := ['f']
  externalId := some (decimal 7)

/-- A message is stored, moved to another folder, and stored once more by the older program, which
had found it before: the migration fails. -/
theorem moved_message_blocks :
    ∃ t, Produced [imapAccount] t ∧ mergeLegacy [imapAccount] t.rows = none := by
  have himap : ['a'] ∈ imapAccounts [imapAccount] := by decide
  obtain ⟨t, ht, hrows⟩ := KeyedTable.insert_free
    (t := (KeyedTable.empty : MessageTable)) (a := movedRow) rfl
  have hstored : Produced [imapAccount] t :=
    .insert .empty (.folderScoped 7 himap rfl) ht
  have hmoved := Produced.move hstored 1 ['g']
  have hmovedRows : (t.updateWhere (fun r => r.id == 1) (moveTo ['g']) (fun _ => rfl)
      fun _ => rfl).rows = [moveTo ['g'] movedRow] := by
    have hmap : (t.updateWhere (fun r => r.id == 1) (moveTo ['g']) (fun _ => rfl)
        fun _ => rfl).rows = t.rows.map fun r => if r.id == 1 then moveTo ['g'] r else r := rfl
    rw [hmap, hrows]
    rfl
  obtain ⟨t', ht', hrows'⟩ := KeyedTable.insert_free (a := lateRow)
    (t := t.updateWhere (fun r => r.id == 1) (moveTo ['g']) (fun _ => rfl) fun _ => rfl) (by
      unfold KeyedTable.conflicts
      rw [hmovedRows]
      decide)
  refine ⟨t', .insert hmoved (.bare 7 himap rfl) ht', ?_⟩
  rw [hrows', hmovedRows]
  decide

end Lyra
