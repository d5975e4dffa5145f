import Lyra.Dav.Client
import Lyra.Dav.Extraction

/-!
# Sync reports

How `parse_sync_response` of `dav_protocol.rs` sorts the members of a sync-collection report
into changed and removed ones.  A member with an entity tag was changed, one whose own status
is 404 was removed; the code looks for the digits anywhere in the response.

* `parse_report`: what counts as changed and as removed;
* `classifies_iff`: the members are sorted as the report says exactly if the digits stand in no
  other response without an entity tag.
-/

namespace Lyra

open Lyra.Lib

/-! ## Reports -/

def responses (f : XmlForest) : List XmlForest := f.outermost responseTag

def memberHref (r : XmlForest) : Option Text := textValue "href".toList r

def memberEtag (r : XmlForest) : Option Text := textValue "getetag".toList r

def isStatus : XmlForest → Bool
  | .empty t _ => t.named "status".toList
  | .node t _ _ _ => t.named "status".toList
  | _ => false

/-- The status of a response itself, not that of its properties. -/
def ownStatus : XmlForest → Option Text
  | .node _ _ children _ => (children.children.find? isStatus).map XmlForest.content
  | _ => none

/-- The second word of a status line. -/
def statusCode (line : Text) : Option Text := ((line.splitOnP isWhite).filter (· ≠ []))[1]?

def isGone (r : XmlForest) : Bool := (ownStatus r).bind statusCode == some "404".toList

/-- A report: every member stands in it once, and a removed one has no properties. -/
structure SyncReport where
  doc : XmlForest
  distinct : ((responses doc).filterMap memberHref).Nodup
  exclusive : ∀ r ∈ responses doc, isGone r = true → memberEtag r = none

/-- The members are sorted as the report says, and the token is its token. -/
structure Classifies (report : SyncReport) : Prop where
  changed : (parseSyncResponse report.doc.render).changed =
    ((responses report.doc).filter fun r => (memberEtag r).isSome).filterMap memberHref
  removed : (parseSyncResponse report.doc.render).removed =
    ((responses report.doc).filter isGone).filterMap memberHref
  token : (parseSyncResponse report.doc.render).token = textValue "sync-token".toList report.doc
  once : ∀ r ∈ responses report.doc, ∀ href, memberHref r = some href →
    ¬ (href ∈ (parseSyncResponse report.doc.render).changed ∧
        href ∈ (parseSyncResponse report.doc.render).removed) ∧
      ((memberEtag r).isSome ∨ isGone r = true →
        href ∈ (parseSyncResponse report.doc.render).changed ∨
          href ∈ (parseSyncResponse report.doc.render).removed)

/-- The scanners read the report as a parser does. -/
structure PlainReport (f : XmlForest) : Prop where
  scannable : Scannable responseTag f
  nonempty : emptyCount responseTag f = 0
  token : PlainText "sync-token".toList f
  href : ∀ r ∈ responses f, PlainText "href".toList r
  etag : ∀ r ∈ responses f, PlainText "getetag".toList r

def hasDigits (r : XmlForest) : Bool := (findText "404".toList r.render).isSome

/-- The digits stand in the responses of removed members only, among those without an entity tag. -/
def DigitsOwn (f : XmlForest) : Prop :=
  ∀ r ∈ responses f, (memberHref r).isSome → memberEtag r = none → (hasDigits r = true ↔ isGone r = true)

/-! ## What is parsed -/

section Parsed

variable {f : XmlForest}

theorem filterMap_parts {α : Type} (l : List α) (href : α → Option Text) (a b : α → Bool)
    (keep : Bool → Bool → Bool) :
    ((l.filterMap fun r => (href r).map fun h => (h, a r, b r)).filter
        fun p => keep p.2.1 p.2.2).map (·.1) =
      (l.filter fun r => keep (a r) (b r)).filterMap href := by
  induction l with
  | nil => rfl
  | cons r l ih =>
    cases hr : href r with
    | none =>
      rw [List.filterMap_cons_none (by rw [hr]; rfl), ih, List.filter_cons]
      split
      · rw [List.filterMap_cons_none hr]
      · rfl
    | some h =>
      rw [List.filterMap_cons_some (by rw [hr]; rfl), List.filter_cons, List.filter_cons]
      split
      · rw [List.map_cons, ih, List.filterMap_cons_some hr]
      · exact ih

/-- The token is read twice from the same element. -/
theorem token_eq (h : PlainText "sync-token".toList f) :
    ((element f.render "sync-token".toList).bind fun block => tagText block.1 "sync-token") =
      textValue "sync-token".toList f := by
  have hnil : f.render = f.render ++ [] := (List.append_nil _).symm
  rw [hnil]
  unfold textValue
  cases hfirst : f.first "sync-token".toList with
  | none =>
    have hempty : element [] "sync-token".toList = none := by
      rw [element_eq, (quiet_of_not_mem List.not_mem_nil).noOpen]
      rfl
    rw [element_quiet (quiet_forest h.solid h.scannable hfirst), hempty]
    rfl
  | some e =>
    rcases first_cases hfirst with ⟨t, rfl, hnamed⟩ | ⟨t, close, children, rfl⟩
    · have hempty : emptyCount "sync-token".toList (.empty t .nil) ≠ 0 := fun hzero => by
        rw [(emptyCount_empty.mp hzero).1] at hnamed
        cases hnamed
      rw [element_of_empty h.solid h.scannable hfirst hempty fun depth _ => endOf_nil _ depth]
      rfl
    · have hbody := h.body t close children hfirst
      obtain ⟨hself, hnamed, rest, helement⟩ := element_of_node h.solid h.scannable hfirst
        (emptyCount_of_first hbody.alone) []
      have halone : (XmlForest.node t close children .nil).first "sync-token".toList =
          some (.node t close children .nil) := by
        rw [XmlForest.first, if_pos hnamed]
      have hplain : PlainText "sync-token".toList (.node t close children .nil) := by
        refine ⟨h.solid, hself, fun t' close' children' hfirst' => ?_⟩
        rw [halone] at hfirst'
        exact h.body t' close' children' (hfirst.trans hfirst')
      have htext := tagText_eq_textValue hplain
      unfold textValue at htext
      rw [halone] at htext
      rw [helement]
      exact htext

/-- What counts as changed and as removed, and the token. -/
theorem parse_report (h : PlainReport f) :
    (parseSyncResponse f.render).changed =
        ((responses f).filter fun r => (memberEtag r).isSome).filterMap memberHref ∧
      (parseSyncResponse f.render).removed =
        ((responses f).filter fun r => hasDigits r && !(memberEtag r).isSome).filterMap memberHref ∧
      (parseSyncResponse f.render).token = textValue "sync-token".toList f := by
  have hblocks : responseBlocks f.render = (responses f).map XmlForest.render :=
    (responseBlocks_eq_outermost h.scannable).mpr h.nonempty
  have hparts : (responseBlocks f.render).filterMap (fun block =>
        (tagText block "href").map fun href =>
          (href, (findText "404".toList block).isSome, (tagText block "getetag").isSome)) =
      (responses f).filterMap fun r =>
        (memberHref r).map fun href => (href, hasDigits r, (memberEtag r).isSome) := by
    rw [hblocks, List.filterMap_map]
    refine List.filterMap_congr fun r hr => ?_
    rw [Function.comp_apply, tagText_eq_textValue (h.href r hr), tagText_eq_textValue (h.etag r hr)]
    rfl
  refine ⟨?_, ?_, token_eq h.token⟩
  · exact (congrArg (fun l => (l.filter fun b => b.2.2).map (·.1)) hparts).trans
      (filterMap_parts _ _ _ _ fun _ b => b)
  · exact (congrArg (fun l => (l.filter fun b => b.2.1 && !b.2.2).map (·.1)) hparts).trans
      (filterMap_parts _ _ _ _ fun a b => a && !b)

/-- Two choices from a list whose names are distinct are the same exactly if they agree on all
that have a name. -/
theorem filter_filterMap_eq_iff {α : Type} {l : List α} {name : α → Option Text} {p q : α → Bool}
    (hnodup : (l.filterMap name).Nodup) :
    (l.filter p).filterMap name = (l.filter q).filterMap name ↔
      ∀ r ∈ l, (name r).isSome → p r = q r := by
  induction l with
  | nil => exact ⟨fun _ => nofun, fun _ => rfl⟩
  | cons r l ih =>
    cases hr : name r with
    | none =>
      have hskip : ∀ p : α → Bool, ((r :: l).filter p).filterMap name = (l.filter p).filterMap name := by
        intro p
        rw [List.filter_cons]
        split
        · exact List.filterMap_cons_none hr
        · rfl
      rw [List.filterMap_cons_none hr] at hnodup
      rw [hskip, hskip, ih hnodup, List.forall_mem_cons, hr]
      simp
    | some x =>
      rw [List.filterMap_cons_some hr, List.nodup_cons] at hnodup
      obtain ⟨hx, hnodup⟩ := hnodup
      have hnot : ∀ p : α → Bool, x ∉ (l.filter p).filterMap name := fun p hmem =>
        hx ((List.filter_sublist.filterMap name).subset hmem)
      have hkeep : ∀ p : α → Bool, ((r :: l).filter p).filterMap name =
          if p r then x :: (l.filter p).filterMap name else (l.filter p).filterMap name := by
        intro p
        rw [List.filter_cons]
        split
        · exact List.filterMap_cons_some hr
        · rfl
      rw [hkeep, hkeep, List.forall_mem_cons, ← ih hnodup, hr]
      cases hp : p r with
      | true =>
        cases hq : q r with
        | true => simp
        | false =>
          simp only [if_true, Bool.false_eq_true, if_false, Option.isSome_some, Bool.true_eq_false,
            imp_false, not_true, false_and, iff_false]
          intro heq
          exact hnot q (by rw [← heq]; exact List.mem_cons_self)
      | false =>
        cases hq : q r with
        | true =>
          simp only [if_true, Bool.false_eq_true, if_false, Option.isSome_some, imp_false, not_true,
            false_and, iff_false]
          intro heq
          exact hnot p (by rw [heq]; exact List.mem_cons_self)
        | false => simp

/-- What has a name stands in the list once. -/
theorem eq_of_name {α : Type} {l : List α} {name : α → Option Text}
    (hnodup : (l.filterMap name).Nodup) {a b : α} (ha : a ∈ l) (hb : b ∈ l) {x : Text}
    (hna : name a = some x) (hnb : name b = some x) : a = b := by
  induction l with
  | nil => cases ha
  | cons r l ih =>
    have hrest : (l.filterMap name).Nodup :=
      hnodup.sublist ((List.sublist_cons_self r l).filterMap name)
    have hnew : ∀ c ∈ l, name r = some x → name c ≠ some x := by
      intro c hc hr hx
      rw [List.filterMap_cons_some hr, List.nodup_cons] at hnodup
      exact hnodup.1 (List.mem_filterMap.mpr ⟨c, hc, hx⟩)
    rcases List.mem_cons.mp ha with rfl | ha'
    · rcases List.mem_cons.mp hb with rfl | hb'
      · rfl
      · exact absurd hnb (hnew b hb' hna)
    · rcases List.mem_cons.mp hb with rfl | hb'
      · exact absurd hna (hnew a ha' hnb)
      · exact ih hrest ha' hb'

end Parsed

/-- Among reports that the scanners read as a parser does, the members are sorted as the report
says exactly if the digits stand in no other response without an entity tag. -/
theorem classifies_iff (report : SyncReport) (h : PlainReport report.doc) :
    Classifies report ↔ DigitsOwn report.doc := by
  obtain ⟨hchanged, hremoved, htoken⟩ := parse_report h
  have hagree : ((responses report.doc).filter fun r => hasDigits r && !(memberEtag r).isSome).filterMap
        memberHref = ((responses report.doc).filter isGone).filterMap memberHref ↔
      DigitsOwn report.doc := by
    rw [filter_filterMap_eq_iff report.distinct]
    refine forall₂_congr fun r hr => ?_
    refine imp_congr_right fun _ => ?_
    have hexclusive := report.exclusive r hr
    cases hetag : memberEtag r with
    | none =>
      simp only [Option.isSome_none, Bool.not_false, Bool.and_true, forall_const]
      exact Bool.eq_iff_iff
    | some etag =>
      rw [hetag] at hexclusive
      cases hgone : isGone r with
      | true => exact absurd (hexclusive hgone) (by simp)
      | false => simp
  constructor
  · intro hclass
    rw [← hagree, ← hremoved]
    exact hclass.removed
  · intro hdigits
    have hgone := hremoved.trans (hagree.mpr hdigits)
    refine ⟨hchanged, hgone, htoken, fun r hr href hhref => ?_⟩
    have hmem : ∀ p : XmlForest → Bool, p r = true →
        href ∈ ((responses report.doc).filter p).filterMap memberHref := fun p hp =>
      List.mem_filterMap.mpr ⟨r, List.mem_filter.mpr ⟨hr, hp⟩, hhref⟩
    rw [hchanged, hgone]
    refine ⟨?_, Or.imp (hmem fun r => (memberEtag r).isSome) (hmem isGone)⟩
    rintro ⟨hleft, hright⟩
    obtain ⟨a, ha, hahref⟩ := List.mem_filterMap.mp hleft
    obtain ⟨b, hb, hbhref⟩ := List.mem_filterMap.mp hright
    obtain ⟨ha, hetag⟩ := List.mem_filter.mp ha
    obtain ⟨hb, hgone⟩ := List.mem_filter.mp hb
    obtain rfl := eq_of_name report.distinct ha hb hahref hbhref
    rw [report.exclusive a ha hgone] at hetag
    cases hetag

/-! ## Two reports -/

theorem no_spaces : ∀ c ∈ ([] : List Char), isXmlSpace c = true := List.forall_mem_nil _

def plainTag (name : String) (h : name.toList ≠ [] ∧ ∀ c ∈ name.toList, isXmlNameChar c = true) :
    XmlTag :=
  ⟨⟨none, ⟨name.toList, h.1, h.2⟩⟩, [], ⟨[], no_spaces⟩⟩

def noSpaces : XmlSpaces := ⟨[], no_spaces⟩

/-- A report of one member. -/
def oneMember (href status : XmlLeaf) : XmlForest :=
  .node (plainTag "multistatus" ⟨by decide, forall_mem_of_all (by decide)⟩) noSpaces
    (.node (plainTag "response" ⟨by decide, forall_mem_of_all (by decide)⟩) noSpaces
      (.node (plainTag "href" ⟨by decide, forall_mem_of_all (by decide)⟩) noSpaces (.leaf href .nil)
        (.node (plainTag "status" ⟨by decide, forall_mem_of_all (by decide)⟩) noSpaces
          (.leaf status .nil) .nil)) .nil) .nil

/-- A member that was removed. -/
def removedReport : SyncReport where
  doc := oneMember (.text "/a".toList (by decide)) (.text "HTTP/1.1 404 Not Found".toList (by decide))
  distinct := by decide +kernel
  exclusive := by decide +kernel

theorem plainReport_removed : PlainReport removedReport.doc := by
  have hhref : PlainBody "href".toList (plainTag "href" ⟨by decide, forall_mem_of_all (by decide)⟩)
      (.leaf (.text "/a".toList (by decide)) .nil) := by
    refine ⟨by decide, rfl, ⟨show '\r' ∉ "/a".toList by decide, trivial⟩, ?_⟩
    intro a b hab
    have hmem : XmlItem.char '&' ∈ "/a".toList.map XmlItem.char ++ [] := by
      have hitems : items (.leaf (.text "/a".toList (by decide)) .nil) =
        "/a".toList.map XmlItem.char ++ [] := rfl
      rw [← hitems, hab]
      simp
    simp at hmem
  have hresponses : ∀ r ∈ responses removedReport.doc, r =
      .node (plainTag "response" ⟨by decide, forall_mem_of_all (by decide)⟩) noSpaces
        (.node (plainTag "href" ⟨by decide, forall_mem_of_all (by decide)⟩) noSpaces
          (.leaf (.text "/a".toList (by decide)) .nil)
          (.node (plainTag "status" ⟨by decide, forall_mem_of_all (by decide)⟩) noSpaces
            (.leaf (.text "HTTP/1.1 404 Not Found".toList (by decide)) .nil) .nil)) .nil := by
    intro r hr
    exact List.mem_singleton.mp hr
  refine ⟨by decide +kernel, by decide +kernel, ⟨forall_mem_of_all (by decide), by decide +kernel, ?_⟩,
    ?_, ?_⟩
  · intro t close children hfirst
    cases hfirst
  · intro r hr
    rw [hresponses r hr]
    refine ⟨forall_mem_of_all (by decide), by decide +kernel, ?_⟩
    intro t close children hfirst
    cases hfirst
    exact hhref
  · intro r hr
    rw [hresponses r hr]
    refine ⟨forall_mem_of_all (by decide), by decide +kernel, ?_⟩
    intro t close children hfirst
    cases hfirst

theorem classifies_removed : Classifies removedReport :=
  (classifies_iff removedReport plainReport_removed).mpr (by
    intro r hr
    exact fun _ _ => (by decide +kernel : ∀ r ∈ responses removedReport.doc,
      (hasDigits r = true ↔ isGone r = true)) r hr)

/-- A member that cannot be read now, whose path has the digits. -/
def lockedReport : SyncReport where
  doc := oneMember (.text "/404".toList (by decide)) (.text "HTTP/1.1 423 Locked".toList (by decide))
  distinct := by decide +kernel
  exclusive := by decide +kernel

theorem lockedReport_removed :
    (parseSyncResponse lockedReport.doc.render).removed = ["/404".toList] := by decide +kernel

/-- The member is removed though its status is another. -/
theorem not_classifies_locked : ¬ ∀ report : SyncReport, Classifies report := by
  intro h
  have hremoved := (h lockedReport).removed
  rw [lockedReport_removed] at hremoved
  exact absurd hremoved (by decide +kernel)

end Lyra
