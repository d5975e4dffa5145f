import Lyra.Dav.XmlText

/-!
# What is extracted from a document

`response_blocks` and `tag_text` of `dav_protocol.rs` beside what an XML parser finds.

* `tagText_eq_textValue`: the text of an element whose markup is plain;
* `extraction`: the conditions under which the scanners read a document as a parser does.
-/

namespace Lyra

open Lyra.Lib

/-! ## What a parser finds -/

def responseTag : Text := "response".toList

/-- The text of the first element with a local name. -/
def textValue (tag : Text) (f : XmlForest) : Option Text :=
  (f.first tag).bind fun e => if trimText e.content = [] then none else some (trimText e.content)

/-! ## Conditions -/

/-- What the text of an element is taken from. -/
structure PlainBody (tag : Text) (t : XmlTag) (children : XmlForest) : Prop where
  /-- No attribute of the element holds a closing bracket. -/
  attributes : '>' ∉ t.tail
  /-- The element holds no other one with its name. -/
  alone : children.first tag = none
  strippable : Strippable children
  ampersands : AmpersandsPlain (items children)

/-- Nothing but the elements looks like the tag, and the first one has a plain body. -/
structure PlainText (tag : Text) (f : XmlForest) : Prop where
  solid : ∀ c ∈ tag, isWhite c = false
  scannable : Scannable tag f
  body : ∀ t close children, f.first tag = some (.node t close children .nil) →
    PlainBody tag t children

/-! ## The first element -/

section First

variable {tag y : Text} {f children : XmlForest} {t : XmlTag} {close : XmlSpaces}

/-- A forest without the name is passed over. -/
theorem quiet_forest (htag : ∀ c ∈ tag, isWhite c = false) (h : Scannable tag f)
    (hfirst : f.first tag = none) : Quiet tag f.render := by
  induction f with
  | nil => exact quiet_of_not_mem List.not_mem_nil
  | leaf l rest ih => exact (quiet_leaf h.1).append (ih h.2 hfirst)
  | empty t rest ih =>
    rw [XmlForest.first] at hfirst
    split at hfirst
    · cases hfirst
    · rename_i hnamed
      exact (quiet_tagText h.1 (by simpa using hnamed) (tagText_empty t)).append (ih h.2 hfirst)
  | node t close children rest ihchildren ih =>
    rw [XmlForest.first] at hfirst
    split at hfirst
    · cases hfirst
    · rename_i hnamed
      have hnot : t.named tag = false := by simpa using hnamed
      obtain ⟨hchildren, hrest⟩ := Option.or_eq_none_iff.mp hfirst
      exact (quiet_tagText h.1.1 hnot (tagText_open t)).append ((ihchildren h.2.1 hchildren).append
        ((quiet_closeText htag hnot close).append (ih h.2.2 hrest)))

theorem emptyCount_of_first (hfirst : f.first tag = none) : emptyCount tag f = 0 := by
  induction f with
  | nil => rfl
  | leaf l rest ih => exact ih hfirst
  | empty t rest ih =>
    rw [XmlForest.first] at hfirst
    split at hfirst
    · cases hfirst
    · rename_i hnamed
      exact emptyCount_empty.mpr ⟨by simpa using hnamed, ih hfirst⟩
  | node t close children rest ihchildren ih =>
    rw [XmlForest.first] at hfirst
    split at hfirst
    · cases hfirst
    · obtain ⟨hchildren, hrest⟩ := Option.or_eq_none_iff.mp hfirst
      rw [emptyCount, ihchildren hchildren, ih hrest]

/-- An element that is empty or holds an empty one with its name is never found, and nothing
behind it. -/
theorem element_of_empty (htag : ∀ c ∈ tag, isWhite c = false) (h : Scannable tag f) {e : XmlForest}
    (hfirst : f.first tag = some e) (hempty : emptyCount tag e ≠ 0)
    (hend : ∀ depth, 1 ≤ depth → endOf tag depth y = none) : element (f.render ++ y) tag = none := by
  induction f generalizing y with
  | nil => cases hfirst
  | leaf l rest ih =>
    rw [XmlForest.render, List.append_assoc, element_quiet (quiet_leaf h.1)]
    exact ih h.2 hfirst hend
  | empty t rest ih =>
    rw [XmlForest.first] at hfirst
    rw [XmlForest.render, List.append_assoc]
    split at hfirst
    · rename_i hnamed
      exact element_of_endOf h.1 hnamed (tagText_empty t)
        (endOf_forest_none htag h.2 hend 1 (Nat.le_refl 1))
    · rename_i hnamed
      rw [element_quiet (quiet_tagText h.1 (by simpa using hnamed) (tagText_empty t))]
      exact ih h.2 hfirst hend
  | node t close children rest ihchildren ih =>
    have hrest := endOf_forest_none htag h.2.2 hend
    rw [XmlForest.first] at hfirst
    rw [XmlForest.render, List.append_assoc, List.append_assoc, List.append_assoc]
    split at hfirst
    · rename_i hnamed
      obtain rfl := Option.some.inj hfirst
      refine element_of_endOf h.1.1 hnamed (tagText_open t) ?_
      have hinner : emptyCount tag children ≠ 0 := by simpa [emptyCount] using hempty
      rw [endOf_forest htag h.2.1 (Nat.le_refl 1), endOf_closeText htag h.1.2, if_pos hnamed,
        if_neg (by omega), hrest _ (by omega)]
      rfl
    · rename_i hnamed
      have hnot : t.named tag = false := by simpa using hnamed
      have hclose := quiet_closeText htag hnot close
      rw [element_quiet (quiet_tagText h.1.1 hnot (tagText_open t))]
      cases hinner : children.first tag with
      | none =>
        rw [hinner, Option.none_or] at hfirst
        rw [element_quiet (quiet_forest htag h.2.1 hinner), element_quiet hclose]
        exact ih h.2.2 hfirst hend
      | some e' =>
        rw [hinner, Option.some_or] at hfirst
        refine ihchildren h.2.1 (hinner.trans hfirst) fun depth hdepth => ?_
        rw [endOf_quiet hclose, hrest depth hdepth]
        rfl

/-- Any other first element is found, unless it holds an empty one with its name. -/
theorem element_of_node (htag : ∀ c ∈ tag, isWhite c = false) (h : Scannable tag f)
    (hfirst : f.first tag = some (.node t close children .nil))
    (hempty : emptyCount tag children = 0) (y : Text) :
    Scannable tag (.node t close children .nil) ∧ t.named tag = true ∧
      ∃ rest, element (f.render ++ y) tag =
        some ((XmlForest.node t close children .nil).render, rest) := by
  induction f generalizing y with
  | nil => cases hfirst
  | leaf l rest ih =>
    rw [XmlForest.render, List.append_assoc, element_quiet (quiet_leaf h.1)]
    exact ih h.2 hfirst y
  | empty t' rest ih =>
    rw [XmlForest.first] at hfirst
    split at hfirst
    · cases hfirst
    · rename_i hnamed
      rw [XmlForest.render, List.append_assoc,
        element_quiet (quiet_tagText h.1 (by simpa using hnamed) (tagText_empty t'))]
      exact ih h.2 hfirst y
  | node t' close' inner rest ihinner ih =>
    rw [XmlForest.first] at hfirst
    split at hfirst
    · rename_i hnamed
      obtain ⟨rfl, rfl, rfl⟩ : t' = t ∧ close' = close ∧ inner = children := by
        simpa using hfirst
      have hself : Scannable tag (.node t' close' inner .nil) := ⟨h.1, h.2.1, trivial⟩
      refine ⟨hself, hnamed, rest.render ++ y, ?_⟩
      rw [render_node, List.append_assoc]
      exact element_node htag hself hnamed hempty _
    · rename_i hnamed
      have hnot : t'.named tag = false := by simpa using hnamed
      have hclose := quiet_closeText htag hnot close'
      rw [XmlForest.render, List.append_assoc,
        element_quiet (quiet_tagText h.1.1 hnot (tagText_open t')), List.append_assoc,
        List.append_assoc]
      cases hinner : inner.first tag with
      | none =>
        rw [hinner, Option.none_or] at hfirst
        rw [element_quiet (quiet_forest htag h.2.1 hinner), element_quiet hclose]
        exact ih h.2.2 hfirst y
      | some e =>
        rw [hinner, Option.some_or] at hfirst
        exact ihinner h.2.1 (hinner.trans hfirst) _

/-- What is found is an element alone, with the name. -/
theorem first_cases {e : XmlForest} (h : f.first tag = some e) :
    (∃ t, e = .empty t .nil ∧ t.named tag = true) ∨
      ∃ t close children, e = .node t close children .nil := by
  induction f with
  | nil => cases h
  | leaf l rest ih => exact ih h
  | empty t rest ih =>
    rw [XmlForest.first] at h
    split at h
    · rename_i hnamed
      exact .inl ⟨t, (Option.some.inj h).symm, hnamed⟩
    · exact ih h
  | node t close children rest ihchildren ih =>
    rw [XmlForest.first] at h
    split at h
    · exact .inr ⟨t, close, children, (Option.some.inj h).symm⟩
    · rcases Option.or_eq_some_iff.mp h with h | ⟨-, h⟩
      · exact ihchildren h
      · exact ih h

end First

/-! ## Texts -/

section Texts

variable {tag : Text} {f children : XmlForest} {t : XmlTag} {close : XmlSpaces}

theorem endOf_nil (tag : Text) (depth : Nat) : endOf tag depth [] = none := by
  have hquiet : Quiet tag [] := quiet_of_not_mem List.not_mem_nil
  rw [endOf_eq, hquiet.noClose, hquiet.noOpen]

/-- Every reference of a plain body is known. -/
theorem allKnown_items (h : Strippable f) : AllKnown (items f) := by
  have happend : ∀ {a b : List XmlItem}, AllKnown a → AllKnown b → AllKnown (a ++ b) :=
    fun ha hb r hr => (List.mem_append.mp hr).elim (ha r) (hb r)
  have hchars : ∀ s : Text, AllKnown (s.map XmlItem.char) := by
    intro s r hr
    obtain ⟨c, -, hc⟩ := List.mem_map.mp hr
    cases hc
  induction f with
  | nil => exact fun r hr => absurd hr List.not_mem_nil
  | leaf l rest ih =>
    refine happend ?_ (ih h.2)
    cases l with
    | text s plain => exact hchars s
    | ref r =>
      intro x hx
      obtain rfl := XmlItem.ref.inj (List.mem_singleton.mp hx)
      exact h.1
    | cdata s plain => exact hchars s
    | comment s plain => exact hchars []
    | instruction s plain => exact hchars []
  | empty t rest ih => exact ih h.2
  | node t close children rest ihchildren ih => exact happend (ihchildren h.2.1) (ih h.2.2)

theorem findOpen_openText (hsolid : Solid t.name) (hnamed : t.named tag = true) (h : '>' ∉ t.tail) :
    findOpen (XmlForest.openText t) tag = some (0, (XmlForest.openText t).length) := by
  have hend : NameEnd t.tail := by
    rcases tail_cases t with h | h
    · exact .inl h
    · exact .inr (.inr h)
  have hplain : '<' ∉ t.tail ++ '>' :: [] := List.not_mem_append (not_mem_tail t) (by decide)
  have htext : XmlForest.openText t = '<' :: (t.name.render ++ (t.tail ++ '>' :: [])) := by
    simp [XmlForest.openText, XmlTag.render]
  rw [htext, findOpen_tag hsolid h hend hplain, if_pos (beq_iff_eq.mp hnamed)]
  simp [Nat.add_assoc]

/-- The scanners at an element alone, whose body is plain. -/
theorem slice_body (htag : ∀ c ∈ tag, isWhite c = false)
    (h : Scannable tag (.node t close children .nil)) (hnamed : t.named tag = true)
    (hbody : PlainBody tag t children) : ∃ afterOpen closing after,
      findOpen (XmlForest.node t close children .nil).render tag = some (0, afterOpen) ∧
      findClose (XmlForest.node t close children .nil).render tag = some (closing, after) ∧
      slice (XmlForest.node t close children .nil).render afterOpen closing = children.render := by
  obtain ⟨⟨hsolid, hclose⟩, hchildren, -⟩ := h
  have hquiet := quiet_forest htag hchildren hbody.alone
  have hfind := findClose_closeText htag t close hclose
  have hrender : (XmlForest.node t close children .nil).render =
      XmlForest.openText t ++ (children.render ++ XmlForest.closeText t close) := by
    simp [XmlForest.render]
  rw [hnamed, if_pos rfl] at hfind
  rw [hrender, findOpen_append (tagText_open t).closed,
    findOpen_openText hsolid hnamed hbody.attributes, findClose_append (tagText_open t).closed,
    (tagText_open t).noClose, findClose_append hquiet.closed, hquiet.noClose, hfind]
  refine ⟨_, _, _, rfl, rfl, ?_⟩
  unfold slice
  rw [List.drop_left]
  simp only [shift]
  rw [Nat.add_sub_cancel, Nat.zero_add, List.take_left]

theorem trimText_body (h : Strippable children) (hamp : AmpersandsPlain (items children)) :
    trimText (unescapeXml (stripTags children.render)) = trimText children.content := by
  have hstrip := stripTags_forest h []
  have hnil : stripTags [] = [] := rfl
  rw [List.append_nil, hnil, List.append_nil] at hstrip
  rw [hstrip, unescapeXml_items (allKnown_items h) hamp, content_eq h]

variable {name : String}

/-- `tag_text` reads what a parser reads, where the text is plain. -/
theorem tagText_eq_textValue (h : PlainText name.toList f) :
    tagText f.render name = textValue name.toList f := by
  have hnil : f.render = f.render ++ [] := (List.append_nil _).symm
  unfold tagText textValue
  cases hfirst : f.first name.toList with
  | none =>
    have hempty : element [] name.toList = none := by
      rw [element_eq, (quiet_of_not_mem List.not_mem_nil).noOpen]
      rfl
    rw [hnil, element_quiet (quiet_forest h.solid h.scannable hfirst), hempty]
    rfl
  | some e =>
    rcases first_cases hfirst with ⟨t, rfl, hnamed⟩ | ⟨t, close, children, rfl⟩
    · have hempty : emptyCount name.toList (.empty t .nil) ≠ 0 := fun hzero => by
        rw [(emptyCount_empty.mp hzero).1] at hnamed
        cases hnamed
      have hnone := element_of_empty h.solid h.scannable hfirst hempty fun depth _ => endOf_nil _ depth
      rw [hnil, hnone]
      rfl
    · have hbody := h.body t close children hfirst
      obtain ⟨hself, hnamed, rest, helement⟩ := element_of_node h.solid h.scannable hfirst
        (emptyCount_of_first hbody.alone) []
      obtain ⟨afterOpen, closing, after, hopen, hclosing, hslice⟩ :=
        slice_body h.solid hself hnamed hbody
      have hcontent : (XmlForest.node t close children .nil).content = children.content :=
        List.append_nil _
      rw [hnil, helement]
      simp only [hopen, hclosing, hslice, Option.bind_some]
      rw [trimText_body hbody.strippable hbody.ampersands, hcontent]

/-- `element` finds the first element, unless it is empty or holds an empty one with its name. -/
theorem element_eq_first (htag : ∀ c ∈ tag, isWhite c = false) (h : Scannable tag f) :
    (element f.render tag).map Prod.fst = (f.first tag).map XmlForest.render ↔
      ∀ e, f.first tag = some e → emptyCount tag e = 0 := by
  have hnil : f.render = f.render ++ [] := (List.append_nil _).symm
  rw [hnil]
  cases hfirst : f.first tag with
  | none =>
    have hempty : element [] tag = none := by
      rw [element_eq, (quiet_of_not_mem List.not_mem_nil).noOpen]
      rfl
    rw [element_quiet (quiet_forest htag h hfirst), hempty]
    exact ⟨fun _ => nofun, fun _ => rfl⟩
  | some e =>
    constructor
    · intro hfound e' he'
      obtain rfl := Option.some.inj he'
      by_contra hempty
      rw [element_of_empty htag h hfirst hempty fun depth _ => endOf_nil _ depth] at hfound
      cases hfound
    · intro hempty
      have hcount := hempty e rfl
      rcases first_cases hfirst with ⟨t, rfl, hnamed⟩ | ⟨t, close, children, rfl⟩
      · rw [(emptyCount_empty.mp hcount).1] at hnamed
        cases hnamed
      · obtain ⟨-, -, rest, helement⟩ := element_of_node htag h hfirst hcount []
        rw [helement]
        rfl

/-- The scanners find all responses, unless one of them is empty or holds an empty one. -/
theorem responseBlocks_eq_outermost (h : Scannable responseTag f) :
    responseBlocks f.render = (f.outermost responseTag).map XmlForest.render ↔
      emptyCount responseTag f = 0 := by
  have hempty : responseBlocks [] = [] := by
    rw [responseBlocks_eq, element_eq, (quiet_of_not_mem List.not_mem_nil).noOpen]
    rfl
  have hnil : f.render = f.render ++ [] := (List.append_nil _).symm
  rw [hnil]
  constructor
  · intro hblocks
    by_contra hcount
    have hlt := length_responseBlocks_lt h hcount fun depth _ => endOf_nil _ depth
    rw [hblocks, List.length_map] at hlt
    exact Nat.lt_irrefl _ hlt
  · intro hcount
    have hblocks := responseBlocks_forest h hcount []
    rw [hempty, List.append_nil (List.map _ _)] at hblocks
    exact hblocks

end Texts

/-- Where the markup between the elements holds nothing that looks like the tag, the scanners find
the elements exactly if none is empty, and they read plain texts as a parser does. -/
theorem extraction (f : XmlForest) (name : String) :
    (Scannable responseTag f →
        (responseBlocks f.render = (f.outermost responseTag).map XmlForest.render ↔
          emptyCount responseTag f = 0)) ∧
      ((∀ c ∈ name.toList, isWhite c = false) → Scannable name.toList f →
        ((element f.render name.toList).map Prod.fst =
            (f.first name.toList).map XmlForest.render ↔
          ∀ e, f.first name.toList = some e → emptyCount name.toList e = 0)) ∧
      (PlainText name.toList f → tagText f.render name = textValue name.toList f) :=
  ⟨responseBlocks_eq_outermost, element_eq_first, tagText_eq_textValue⟩

/-- `<getetag>&#34;v1&#34;</getetag>` -/
def quotedEtag : XmlForest :=
  .node ⟨⟨none, ⟨"getetag".toList, by decide, forall_mem_of_all (by decide)⟩⟩, [],
      ⟨[], List.forall_mem_nil _⟩⟩ ⟨[], List.forall_mem_nil _⟩
    (.leaf (.ref (.decimal ['3', '4'] ⟨by decide, forall_mem_of_all (by decide)⟩))
      (.leaf (.text "v1".toList (by decide)) (.leaf (.ref (.decimal ['3', '4'] ⟨by decide, forall_mem_of_all (by decide)⟩)) .nil))) .nil

/-- A numeric reference is left as it stands. -/
theorem quotedEtag_not_read : ¬ ∀ (f : XmlForest) (name : String),
    responseBlocks f.render = (f.outermost responseTag).map XmlForest.render ∧
      (element f.render name.toList).map Prod.fst = (f.first name.toList).map XmlForest.render ∧
      tagText f.render name = textValue name.toList f :=
  fun h => absurd (h quotedEtag "getetag").2.2 (by decide +kernel)

end Lyra
