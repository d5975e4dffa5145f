import Lyra.Dav.XmlScan
import Mathlib.Data.List.TakeWhile

/-!
# Scanning documents

What the scanners of `dav_protocol.rs` find in the text of a document.  They follow the
structure of the document where the markup between the elements holds nothing that looks like a
tag with the name, and where the name ends its closing tags.

* `endOf_forest`: the nesting behind a forest;
* `responseBlocks_forest`: the responses of a document.
-/

namespace Lyra

open Lyra.Lib

/-! ## Conditions -/

/-- A name that the scanner reads to its end. -/
def Solid (n : XmlName) : Prop := ∀ c ∈ n.render, isWhite c = false

/-- Nothing but the elements looks like a tag with this local name. -/
def Scannable (tag : Text) : XmlForest → Prop
  | .nil => True
  | .leaf l rest =>
    (findOpen l.render tag = none ∧ findClose l.render tag = none) ∧ Scannable tag rest
  | .empty t rest => Solid t.name ∧ Scannable tag rest
  | .node t close children rest =>
    (Solid t.name ∧ (t.named tag = true → close.chars = [])) ∧
      Scannable tag children ∧ Scannable tag rest

instance (n : XmlName) : Decidable (Solid n) :=
  decidable_of_iff (n.render.all (fun c => !isWhite c) = true) (by simp [Solid])

instance decidableScannable (tag : Text) : (f : XmlForest) → Decidable (Scannable tag f)
  | .nil => .isTrue trivial
  | .leaf l rest =>
    have := decidableScannable tag rest
    inferInstanceAs (Decidable
      ((findOpen l.render tag = none ∧ findClose l.render tag = none) ∧ Scannable tag rest))
  | .empty t rest =>
    have := decidableScannable tag rest
    inferInstanceAs (Decidable (Solid t.name ∧ Scannable tag rest))
  | .node t close children rest =>
    have := decidableScannable tag children
    have := decidableScannable tag rest
    inferInstanceAs (Decidable ((Solid t.name ∧ (t.named tag = true → close.chars = [])) ∧
      Scannable tag children ∧ Scannable tag rest))

/-- How many self-closing elements have this local name. -/
def emptyCount (tag : Text) : XmlForest → Nat
  | .nil => 0
  | .leaf _ rest => emptyCount tag rest
  | .empty t rest => (if t.named tag then 1 else 0) + emptyCount tag rest
  | .node _ _ children rest => emptyCount tag children + emptyCount tag rest

/-! ## Tags -/

section Tags

variable {tag x y : Text} {t : XmlTag} {n : XmlName} {close : XmlSpaces} {c : Char}

theorem isWhite_of_isXmlSpace (h : isXmlSpace c = true) : isWhite c = true := by
  have hcases : c = ' ' ∨ c = '\t' ∨ c = '\n' ∨ c = '\r' := by simpa [isXmlSpace] using h
  rcases hcases with rfl | rfl | rfl | rfl <;> decide

theorem not_mem_of_nameChars {s : Text} (h : ∀ c ∈ s, isXmlNameChar c = true)
    (hc : isXmlNameChar c = false) : c ∉ s := by
  intro hmem
  rw [h c hmem] at hc
  cases hc

theorem not_mem_name (hcolon : c ≠ ':') (hc : isXmlNameChar c = false) (n : XmlName) :
    c ∉ n.render := by
  unfold XmlName.render
  cases n.space with
  | none => exact not_mem_of_nameChars n.base.plain hc
  | some p =>
    intro h
    rcases List.mem_append.mp h with h | h
    · exact not_mem_of_nameChars p.plain hc h
    · rcases List.mem_cons.mp h with h | h
      · exact hcolon h
      · exact not_mem_of_nameChars n.base.plain hc h

theorem name_ne_nil (n : XmlName) : n.render ≠ [] := by
  unfold XmlName.render
  cases n.space with
  | none => exact n.base.nonempty
  | some p => simp

theorem lastPiece_of_not_mem {s : Text} (h : ':' ∉ s) : lastPiece s = s := by
  unfold lastPiece
  rw [List.takeWhile_eq_self_iff.mpr, List.reverse_reverse]
  intro d hd
  exact decide_eq_true (ne_of_mem_of_not_mem (List.mem_reverse.mp hd) h)

theorem lastPiece_colon {s : Text} (h : ':' ∉ s) (p : Text) : lastPiece (p ++ ':' :: s) = s := by
  have hall : ∀ d ∈ s.reverse, decide (d ≠ ':') = true := fun d hd =>
    decide_eq_true (ne_of_mem_of_not_mem (List.mem_reverse.mp hd) h)
  unfold lastPiece
  rw [List.reverse_append, List.reverse_cons, List.append_assoc,
    List.takeWhile_append_of_pos hall, List.singleton_append,
    List.takeWhile_cons_of_neg (by decide), List.append_nil, List.reverse_reverse]

theorem lastPiece_name (h : ':' ∉ x) (n : XmlName) : lastPiece (n.render ++ x) = n.base.chars ++ x := by
  have hbase : ':' ∉ n.base.chars ++ x :=
    List.not_mem_append (not_mem_of_nameChars n.base.plain (by decide)) h
  unfold XmlName.render
  cases n.space with
  | none => exact lastPiece_of_not_mem hbase
  | some p =>
    simp only
    rw [List.append_assoc, List.cons_append]
    exact lastPiece_colon hbase p.chars

/-- What can stand behind the name in a tag, up to the first bracket. -/
def NameEnd (p : Text) : Prop := p = [] ∨ p = ['/'] ∨ ∃ c p', p = c :: p' ∧ isWhite c = true

theorem localName_eq (hsolid : Solid n) (hx : NameEnd x) : localName (n.render ++ x) = n.base.chars := by
  have hwhite : ∀ c ∈ n.render, (!isWhite c) = true := fun c hc => by rw [hsolid c hc]; rfl
  have hstart : trimStart (n.render ++ x) = n.render ++ x := by
    obtain ⟨d, s, hn⟩ := List.exists_cons_of_ne_nil (name_ne_nil n)
    have hd := hsolid d (by rw [hn]; exact List.mem_cons_self)
    unfold trimStart
    rw [hn, List.cons_append, List.dropWhile_cons_of_neg (by rw [hd]; exact Bool.false_ne_true)]
  have hslash : ∀ s : Text, (∀ c ∈ s, c = '/') →
      ((n.render ++ s).reverse.dropWhile (· = '/')).reverse = n.render := by
    intro s hs
    have hall : ∀ c ∈ s.reverse, decide (c = '/') = true := fun c hc =>
      decide_eq_true (hs c (List.mem_reverse.mp hc))
    obtain ⟨d, r, hr⟩ := List.exists_cons_of_ne_nil
      (fun h => name_ne_nil n (List.reverse_eq_nil_iff.mp h) : n.render.reverse ≠ [])
    have hd : d ≠ '/' := by
      have hmem : d ∈ n.render := List.mem_reverse.mp (by rw [hr]; exact List.mem_cons_self)
      exact ne_of_mem_of_not_mem hmem (not_mem_name (by decide) (by decide) n)
    rw [List.reverse_append, List.dropWhile_append_of_pos hall, hr,
      List.dropWhile_cons_of_neg (by simpa using hd), ← hr, List.reverse_reverse]
  have hlast : lastPiece n.render = n.base.chars := by
    have := lastPiece_name (x := []) List.not_mem_nil n
    rwa [List.append_nil, List.append_nil] at this
  unfold localName
  simp only
  rw [hstart, List.takeWhile_append_of_pos hwhite]
  rcases hx with rfl | rfl | ⟨c, p, rfl, hc⟩
  · rw [List.takeWhile_nil, hslash [] (by simp), hlast]
  · have hself : ['/'].takeWhile (fun c => !isWhite c) = ['/'] := by decide
    rw [hself, hslash ['/'] (by simp), hlast]
  · rw [List.takeWhile_cons_of_neg (by rw [hc]; exact Bool.false_ne_true), hslash [] (by simp), hlast]

theorem findOpen_head {r : Text} (h : '<' ∉ r) : findOpen ('<' :: r) tag =
    (openAt tag ('<' :: r)).map fun n => (0, n) := by
  have hrest : scan (openAt tag) r = none := by
    rw [← findOpen_eq]
    exact (quiet_of_not_mem h).noOpen
  rw [findOpen_eq, scan, hrest]
  cases openAt tag ('<' :: r) with
  | none => rfl
  | some n => rfl

theorem findClose_head {r : Text} (h : '<' ∉ r) : findClose ('<' :: r) tag =
    (closeAt tag ('<' :: r)).map fun n => (0, n) := by
  have hrest : scan (closeAt tag) r = none := by
    rw [← findClose_eq]
    exact (quiet_of_not_mem h).noClose
  rw [findClose_eq, scan, hrest]
  cases closeAt tag ('<' :: r) with
  | none => rfl
  | some n => rfl

theorem head_name (n : XmlName) (x : Text) : (n.render ++ x).head? ≠ some '/' := by
  obtain ⟨d, s, hn⟩ := List.exists_cons_of_ne_nil (name_ne_nil n)
  have hd : d ≠ '/' := by
    have hmem : d ∈ n.render := by rw [hn]; exact List.mem_cons_self
    exact ne_of_mem_of_not_mem hmem (not_mem_name (by decide) (by decide) n)
  rw [hn, List.cons_append, List.head?_cons]
  simpa using hd

theorem findOpen_tag (hsolid : Solid n) {p q : Text} (hp : '>' ∉ p) (hend : NameEnd p)
    (hplain : '<' ∉ p ++ '>' :: q) :
    findOpen ('<' :: (n.render ++ (p ++ '>' :: q))) tag =
      if n.base.chars = tag then some (0, (n.render ++ p).length + 2) else none := by
  have hname : '>' ∉ n.render ++ p := List.not_mem_append (not_mem_name (by decide) (by decide) n) hp
  rw [findOpen_head (List.not_mem_append (not_mem_name (by decide) (by decide) n) hplain),
    ← List.append_assoc, openAt_bracket hname, if_neg (head_name n p), localName_eq hsolid hend]
  split <;> rfl

theorem findClose_tag (hplain : '<' ∉ x) (n : XmlName) :
    findClose ('<' :: (n.render ++ x)) tag = none := by
  rw [findClose_head (List.not_mem_append (not_mem_name (by decide) (by decide) n) hplain),
    closeAt_of_head (head_name n x)]
  rfl

/-- The text of an opening tag, of an empty element or not. -/
def TagText (t : XmlTag) (a : Text) : Prop :=
  ∃ s, a = '<' :: (t.name.render ++ (s ++ ['>'])) ∧ NameEnd s ∧ '<' ∉ s

theorem NameEnd.split {s : Text} (h : NameEnd s) :
    ∃ p q, s ++ ['>'] = p ++ '>' :: q ∧ '>' ∉ p ∧ NameEnd p := by
  obtain ⟨p, q, heq, hp⟩ := List.eq_append_cons_of_mem
    (List.mem_append_right s List.mem_cons_self : '>' ∈ s ++ ['>'])
  refine ⟨p, q, heq, hp, ?_⟩
  cases p with
  | nil => exact .inl rfl
  | cons d p =>
    have hd : d ≠ '>' := fun hd => hp (by rw [hd]; exact List.mem_cons_self)
    rcases h with rfl | rfl | ⟨c, s, rfl, hc⟩
    · exact absurd (List.cons.inj heq).1.symm hd
    · obtain ⟨hslash, hrest⟩ := List.cons.inj heq
      cases p with
      | nil => exact .inr (.inl (by rw [← hslash]))
      | cons e p =>
        have he : e = '>' := (List.cons.inj hrest).1.symm
        exact absurd (by rw [he]; exact List.mem_cons_of_mem _ List.mem_cons_self) hp
    · exact .inr (.inr ⟨d, p, rfl, by rw [← (List.cons.inj heq).1]; exact hc⟩)

namespace TagText

variable {a : Text} (h : TagText t a)

include h

theorem closed : Closed a := by
  obtain ⟨s, rfl, -, -⟩ := h
  rw [← List.append_assoc, ← List.cons_append]
  exact closed_of_last _

theorem rest : '<' ∉ a.drop 1 := by
  obtain ⟨s, rfl, -, hs⟩ := h
  have hname := not_mem_name (c := '<') (by decide) (by decide) t.name
  rw [List.drop_succ_cons, List.drop_zero]
  exact List.not_mem_append hname (List.not_mem_append hs (by decide))

theorem noClose : findClose a tag = none := by
  obtain ⟨s, rfl, -, hs⟩ := h
  exact findClose_tag (List.not_mem_append hs (by decide)) t.name

theorem findOpen_eq (tag : Text) (hsolid : Solid t.name) :
    ∃ p q, a = p ++ q ∧ '<' ∉ q ∧
      findOpen a tag = if t.named tag then some (0, p.length) else none := by
  obtain ⟨s, rfl, hend, hs⟩ := h
  obtain ⟨p, q, heq, hp, hpend⟩ := hend.split
  have hplain : '<' ∉ p ++ '>' :: q := by
    rw [← heq]
    exact List.not_mem_append hs (by decide)
  refine ⟨'<' :: (t.name.render ++ (p ++ ['>'])), q, by rw [heq]; simp, ?_, ?_⟩
  · exact fun hmem => hplain (List.mem_append_right _ (List.mem_cons_of_mem _ hmem))
  · rw [heq, findOpen_tag hsolid hp hpend hplain]
    simp [XmlTag.named, Nat.add_assoc]

/-- An opening tag goes down, if it has the name. -/
theorem endOf_eq (hsolid : Solid t.name) (depth : Nat) (y : Text) :
    endOf tag depth (a ++ y) =
      (endOf tag (depth + if t.named tag then 1 else 0) y).map (· + a.length) := by
  obtain ⟨p, q, -, -, hn⟩ := h.findOpen_eq tag hsolid
  cases hnamed : t.named tag with
  | true =>
    rw [hnamed, if_pos rfl] at hn
    rw [endOf_open h.closed hn h.noClose h.rest, if_pos rfl]
  | false =>
    rw [hnamed, if_neg Bool.false_ne_true] at hn
    rw [endOf_quiet ⟨h.closed, hn, h.noClose⟩, if_neg Bool.false_ne_true, Nat.add_zero]

end TagText

theorem not_mem_spaces (hc : isXmlSpace c = false) (s : XmlSpaces) : c ∉ s.chars := by
  intro h
  rw [s.plain c h] at hc
  cases hc

theorem not_mem_attribute (a : XmlAttribute) : '<' ∉ a.render := by
  have hquote : '<' ≠ a.quote := by
    rcases a.quoted with h | h <;> rw [h] <;> decide
  unfold XmlAttribute.render
  simp only [List.mem_append, List.mem_cons, List.not_mem_nil, or_false, not_or]
  exact ⟨not_mem_spaces (by decide) _, not_mem_name (by decide) (by decide) _,
    not_mem_spaces (by decide) _, by decide, not_mem_spaces (by decide) _, hquote, a.plain.1, hquote⟩

theorem not_mem_tail (t : XmlTag) : '<' ∉ t.tail := by
  refine List.not_mem_append (fun h => ?_) (not_mem_spaces (by decide) _)
  obtain ⟨a, -, ha⟩ := List.mem_flatMap.mp h
  exact not_mem_attribute a ha

/-- Behind the name there is nothing, or white space. -/
theorem tail_cases (t : XmlTag) : t.tail = [] ∨ ∃ c p, t.tail = c :: p ∧ isWhite c = true := by
  have hspaces : ∀ s : XmlSpaces, ∀ r : Text, s.chars = [] ∨
      ∃ c p, s.chars ++ r = c :: p ∧ isWhite c = true := by
    intro s r
    cases hs : s.chars with
    | nil => exact .inl rfl
    | cons c p =>
      refine .inr ⟨c, p ++ r, rfl, isWhite_of_isXmlSpace (s.plain c ?_)⟩
      rw [hs]
      exact List.mem_cons_self
  unfold XmlTag.tail
  cases t.attributes with
  | nil =>
    rcases hspaces t.trailing [] with h | h
    · exact .inl (by rw [h]; rfl)
    · rw [List.append_nil] at h
      exact .inr h
  | cons a attributes =>
    rw [List.flatMap_cons, List.append_assoc, XmlAttribute.render, List.append_assoc]
    exact .inr ((hspaces a.gap _).resolve_left a.apart)

theorem tagText_open (t : XmlTag) : TagText t (XmlForest.openText t) := by
  refine ⟨t.tail, by simp [XmlForest.openText, XmlTag.render], ?_, not_mem_tail t⟩
  rcases tail_cases t with h | h
  · exact .inl h
  · exact .inr (.inr h)

theorem tagText_empty (t : XmlTag) : TagText t (XmlForest.emptyText t) := by
  refine ⟨t.tail ++ ['/'], by simp [XmlForest.emptyText, XmlTag.render], ?_,
    List.not_mem_append (not_mem_tail t) (by decide)⟩
  rcases tail_cases t with h | ⟨c, p, h, hc⟩
  · exact .inr (.inl (by rw [h]; rfl))
  · exact .inr (.inr ⟨c, p ++ ['/'], by rw [h]; rfl, hc⟩)

theorem closeText_eq (t : XmlTag) (close : XmlSpaces) : XmlForest.closeText t close =
    '<' :: '/' :: (t.name.render ++ close.chars ++ ['>']) := by
  have hstart : "</".toList = ['<', '/'] := by decide
  unfold XmlForest.closeText
  rw [hstart]
  simp

theorem closed_closeText (t : XmlTag) (close : XmlSpaces) : Closed (XmlForest.closeText t close) := by
  rw [closeText_eq, ← List.cons_append, ← List.cons_append]
  exact closed_of_last _

theorem findOpen_closeText (t : XmlTag) (close : XmlSpaces) :
    findOpen (XmlForest.closeText t close) tag = none := by
  have hplain : '<' ∉ '/' :: (t.name.render ++ close.chars ++ ['>']) := by
    have hname := not_mem_name (c := '<') (by decide) (by decide) t.name
    have hclose := not_mem_spaces (c := '<') (by decide) close
    simp [hname, hclose]
  rw [closeText_eq, findOpen_head hplain, openAt, List.head?_cons, if_pos rfl]
  rfl

theorem findClose_closeText (htag : ∀ c ∈ tag, isWhite c = false) (t : XmlTag) (close : XmlSpaces)
    (hclose : t.named tag = true → close.chars = []) :
    findClose (XmlForest.closeText t close) tag =
      if t.named tag then some (0, (XmlForest.closeText t close).length) else none := by
  have hplain : '<' ∉ '/' :: (t.name.render ++ close.chars ++ ['>']) := by
    have hname := not_mem_name (c := '<') (by decide) (by decide) t.name
    have hclose := not_mem_spaces (c := '<') (by decide) close
    simp [hname, hclose]
  have hgt : '>' ∉ t.name.render ++ close.chars :=
    List.not_mem_append (not_mem_name (by decide) (by decide) _) (not_mem_spaces (by decide) _)
  have hpiece : lastPiece (t.name.render ++ close.chars) = t.name.base.chars ++ close.chars :=
    lastPiece_name (not_mem_spaces (by decide) close) t.name
  have hnamed : t.name.base.chars ++ close.chars = tag ↔ t.named tag = true := by
    constructor
    · rintro rfl
      cases hchars : close.chars with
      | nil => simp [XmlTag.named]
      | cons c s =>
        have hwhite := isWhite_of_isXmlSpace (close.plain c (by rw [hchars]; exact List.mem_cons_self))
        rw [htag c (by rw [hchars]; simp)] at hwhite
        cases hwhite
    · intro h
      rw [hclose h, List.append_nil]
      exact beq_iff_eq.mp h
  rw [closeText_eq, findClose_head hplain, closeAt_bracket hgt, hpiece]
  by_cases h : t.named tag = true
  · rw [if_pos (hnamed.mpr h), if_pos h]
    simp [Nat.add_assoc]
  · rw [if_neg fun heq => h (hnamed.mp heq), if_neg h]
    rfl

end Tags

/-! ## Forests -/

section Forests

variable {tag y a b block rest : Text} {f : XmlForest} {t : XmlTag} {close : XmlSpaces} {depth : Nat}

theorem not_mem_ref (r : XmlRef) : '<' ∉ r.render := by
  cases r with
  | decimal digits plain =>
    have hdigits : '<' ∉ digits := fun h => absurd (plain.2 _ h) (by decide)
    exact List.not_mem_append (List.not_mem_append (by decide) hdigits) (by decide)
  | hexadecimal digits plain =>
    have hdigits : '<' ∉ digits := fun h => absurd (plain.2 _ h) (by decide)
    exact List.not_mem_append (List.not_mem_append (by decide) hdigits) (by decide)
  | amp => decide
  | lt => decide
  | gt => decide
  | quot => decide
  | apos => decide

theorem closed_leaf (l : XmlLeaf) : Closed l.render := by
  have hlast : ∀ s t u : Text, u = t ++ ['>'] → Closed (s ++ u) := by
    rintro s t u rfl
    rw [← List.append_assoc]
    exact closed_of_last _
  cases l with
  | text s plain => exact closed_of_not_mem plain.1
  | ref r => exact closed_of_not_mem (not_mem_ref r)
  | cdata s plain =>
    rw [XmlLeaf.render, ← List.append_assoc]
    exact hlast _ [']', ']'] _ (by decide)
  | comment s plain =>
    rw [XmlLeaf.render, ← List.append_assoc]
    exact hlast _ ['-', '-'] _ (by decide)
  | instruction s plain =>
    rw [XmlLeaf.render, ← List.append_assoc]
    exact hlast _ ['?'] _ (by decide)

theorem quiet_leaf {l : XmlLeaf} (h : findOpen l.render tag = none ∧ findClose l.render tag = none) :
    Quiet tag l.render :=
  ⟨closed_leaf l, h.1, h.2⟩

/-- A closing tag goes up, if it has the name. -/
theorem endOf_closeText (htag : ∀ c ∈ tag, isWhite c = false)
    (hclose : t.named tag = true → close.chars = []) (depth : Nat) (y : Text) :
    endOf tag depth (XmlForest.closeText t close ++ y) =
      if t.named tag then
        if depth = 1 then some (XmlForest.closeText t close).length
        else (endOf tag (depth - 1) y).map (· + (XmlForest.closeText t close).length)
      else (endOf tag depth y).map (· + (XmlForest.closeText t close).length) := by
  have hfind := findClose_closeText htag t close hclose
  cases hnamed : t.named tag with
  | true =>
    rw [hnamed, if_pos rfl] at hfind
    rw [endOf_close (closed_closeText t close) (findOpen_closeText t close) hfind, if_pos rfl]
  | false =>
    rw [hnamed, if_neg Bool.false_ne_true] at hfind
    rw [endOf_quiet ⟨closed_closeText t close, findOpen_closeText t close, hfind⟩,
      if_neg Bool.false_ne_true]

/-- Behind a forest the nesting is deeper by the empty elements, which never end. -/
theorem endOf_forest (htag : ∀ c ∈ tag, isWhite c = false) (h : Scannable tag f) (hdepth : 1 ≤ depth)
    (y : Text) : endOf tag depth (f.render ++ y) =
      (endOf tag (depth + emptyCount tag f) y).map (· + f.render.length) := by
  induction f generalizing depth y with
  | nil =>
    have hzero : (endOf tag depth y).map (· + 0) = endOf tag depth y := by
      cases endOf tag depth y <;> rfl
    exact hzero.symm
  | leaf l rest ih =>
    rw [XmlForest.render, List.append_assoc, endOf_quiet (quiet_leaf h.1), ih h.2 hdepth, map_add_add,
      List.length_append, Nat.add_comm l.render.length]
    rfl
  | empty t rest ih =>
    rw [XmlForest.render, List.append_assoc, (tagText_empty t).endOf_eq h.1, ih h.2 (by omega),
      map_add_add, List.length_append, Nat.add_comm (XmlForest.emptyText t).length, emptyCount,
      Nat.add_assoc]
  | node t close children rest ihchildren ih =>
    obtain ⟨⟨hsolid, hclose⟩, hchildren, hrest⟩ := h
    have hlength : (XmlForest.node t close children rest).render.length =
        rest.render.length + ((XmlForest.closeText t close).length +
          (children.render.length + (XmlForest.openText t).length)) := by
      rw [XmlForest.render]
      simp only [List.length_append]
      omega
    rw [hlength, XmlForest.render, List.append_assoc, (tagText_open t).endOf_eq hsolid,
      List.append_assoc, ihchildren hchildren (by omega), List.append_assoc,
      endOf_closeText htag hclose, emptyCount]
    cases t.named tag with
    | true =>
      rw [if_pos rfl, if_pos rfl, if_neg (by omega), ih hrest (by omega), map_add_add, map_add_add,
        map_add_add, show depth + 1 + emptyCount tag children - 1 + emptyCount tag rest =
          depth + (emptyCount tag children + emptyCount tag rest) by omega]
    | false =>
      rw [if_neg Bool.false_ne_true, if_neg Bool.false_ne_true, Nat.add_zero, ih hrest (by omega),
        map_add_add, map_add_add, map_add_add, Nat.add_assoc depth]

/-! ### Elements -/

theorem element_eq (xml tag : Text) : element xml tag =
    (findOpen xml tag).bind fun o => (endOf tag 1 (xml.drop o.2)).map fun n =>
      (slice xml o.1 (n + o.2), xml.drop (n + o.2)) := by
  unfold element
  cases findOpen xml tag with
  | none => rfl
  | some o =>
    have hlength := List.length_drop (i := o.2) (l := xml)
    have hend := elementEnd_drop xml tag (xml.length + 1) 1 o.2 0
    have hfuel : elementEnd (xml.drop o.2) tag (xml.length + 1) 1 0 = endOf tag 1 (xml.drop o.2) :=
      elementEnd_fuel (by omega) (Nat.lt_succ_self _)
    rw [hfuel] at hend
    simp only [Option.bind_some]
    rw [← Nat.add_zero o.2, hend, Option.map_map]
    rfl

theorem element_lt (h : element a tag = some (block, rest)) : rest.length < a.length := by
  rw [element_eq] at h
  obtain ⟨o, ho, h⟩ := Option.bind_eq_some_iff.mp h
  obtain ⟨n, -, hn⟩ := Option.map_eq_some_iff.mp h
  have hlt := findOpen_lt ho
  rw [← (Prod.mk.inj hn).2, List.length_drop]
  omega

theorem slice_append (a y : Text) (start stop : Nat) :
    slice (a ++ y) (start + a.length) (stop + a.length) = slice y start stop := by
  unfold slice
  rw [Nat.add_comm start, ← List.drop_drop, List.drop_left, Nat.add_comm a.length,
    Nat.add_sub_add_right]

theorem element_quiet (ha : Quiet tag a) (y : Text) : element (a ++ y) tag = element y tag := by
  have hdrop : ∀ k, (a ++ y).drop (k + a.length) = y.drop k := by
    intro k
    rw [Nat.add_comm, ← List.drop_drop, List.drop_left]
  rw [element_eq, element_eq, findOpen_append ha.closed, ha.noOpen, Option.none_or]
  cases findOpen y tag with
  | none => rfl
  | some o =>
    simp only [Option.map_some, Option.bind_some, shift]
    rw [hdrop]
    congr 1
    funext n
    rw [← Nat.add_assoc, slice_append, hdrop]

/-- An element that holds no empty one with its name is found as a whole. -/
theorem element_node (htag : ∀ c ∈ tag, isWhite c = false) {children : XmlForest}
    (h : Scannable tag (.node t close children .nil)) (hnamed : t.named tag = true)
    (hempty : emptyCount tag children = 0) (y : Text) :
    element ((XmlForest.node t close children .nil).render ++ y) tag =
      some ((XmlForest.node t close children .nil).render, y) := by
  obtain ⟨⟨hsolid, hclose⟩, hchildren, -⟩ := h
  obtain ⟨p, q, hopen, hq, hfind⟩ := (tagText_open t).findOpen_eq tag hsolid
  rw [hnamed, if_pos rfl] at hfind
  have hrender : (XmlForest.node t close children .nil).render =
      p ++ (q ++ (children.render ++ XmlForest.closeText t close)) := by
    rw [XmlForest.render, XmlForest.render, hopen]
    simp
  have hfind' : findOpen ((XmlForest.node t close children .nil).render ++ y) tag =
      some (0, p.length) := by
    rw [XmlForest.render, List.append_assoc, findOpen_append (tagText_open t).closed, hfind]
    rfl
  have hend : endOf tag 1 (q ++ (children.render ++ (XmlForest.closeText t close ++ y))) =
      some ((XmlForest.closeText t close).length + children.render.length + q.length) := by
    rw [endOf_quiet (quiet_of_not_mem hq), endOf_forest htag hchildren (Nat.le_refl 1), hempty,
      endOf_closeText htag hclose, if_pos hnamed, if_pos rfl]
    rfl
  have hlength : (XmlForest.closeText t close).length + children.render.length + q.length + p.length =
      (XmlForest.node t close children .nil).render.length := by
    rw [hrender]
    simp only [List.length_append]
    omega
  have hdrop : ((XmlForest.node t close children .nil).render ++ y).drop p.length =
      q ++ (children.render ++ (XmlForest.closeText t close ++ y)) := by
    rw [hrender, List.append_assoc, List.drop_left]
    simp
  rw [element_eq, hfind', Option.bind_some, hdrop, hend, Option.map_some, hlength, List.drop_left]
  unfold slice
  rw [List.drop_zero, Nat.sub_zero, List.take_left]

/-! ### Responses -/

theorem responseBlocksFrom_fuel {fuel fuel' : Nat} (h : a.length < fuel) (h' : a.length < fuel') :
    responseBlocksFrom fuel a = responseBlocksFrom fuel' a := by
  induction fuel generalizing a fuel' with
  | zero => omega
  | succ fuel ih =>
    cases fuel' with
    | zero => omega
    | succ fuel' =>
      rw [responseBlocksFrom, responseBlocksFrom]
      cases helement : element a "response".toList with
      | none => rfl
      | some found =>
        have hlt := element_lt helement
        have hrest : responseBlocksFrom fuel found.2 = responseBlocksFrom fuel' found.2 :=
          ih (by omega) (by omega)
        simp only
        rw [hrest]

theorem responseBlocks_eq (a : Text) : responseBlocks a =
    match element a "response".toList with
    | none => []
    | some (block, rest) => block :: responseBlocks rest := by
  unfold responseBlocks
  rw [responseBlocksFrom]
  cases helement : element a "response".toList with
  | none => rfl
  | some found =>
    have hlt := element_lt helement
    have hrest : responseBlocksFrom a.length found.2 =
        responseBlocksFrom (found.2.length + 1) found.2 :=
      responseBlocksFrom_fuel (by omega) (Nat.lt_succ_self _)
    simp only
    rw [hrest]

theorem responseBlocks_quiet (ha : Quiet "response".toList a) (y : Text) :
    responseBlocks (a ++ y) = responseBlocks y := by
  rw [responseBlocks_eq, element_quiet ha, ← responseBlocks_eq]

theorem quiet_tagText (hsolid : Solid t.name) (hnamed : t.named tag = false) (h : TagText t a) :
    Quiet tag a := by
  obtain ⟨p, q, -, -, hfind⟩ := h.findOpen_eq tag hsolid
  rw [hnamed, if_neg Bool.false_ne_true] at hfind
  exact ⟨h.closed, hfind, h.noClose⟩

theorem quiet_closeText (htag : ∀ c ∈ tag, isWhite c = false) (hnamed : t.named tag = false)
    (close : XmlSpaces) : Quiet tag (XmlForest.closeText t close) := by
  have hfind := findClose_closeText htag t close fun h => by rw [hnamed] at h; cases h
  rw [hnamed, if_neg Bool.false_ne_true] at hfind
  exact ⟨closed_closeText t close, findOpen_closeText t close, hfind⟩

theorem emptyCount_empty :
    emptyCount tag (.empty t f) = 0 ↔ t.named tag = false ∧ emptyCount tag f = 0 := by
  simp [emptyCount]

theorem solid_response : ∀ c ∈ "response".toList, isWhite c = false := forall_mem_of_all (by decide)

theorem render_node (t : XmlTag) (close : XmlSpaces) (children rest : XmlForest) :
    (XmlForest.node t close children rest).render =
      (XmlForest.node t close children .nil).render ++ rest.render := by
  simp [XmlForest.render]

theorem Quiet.append (ha : Quiet tag a) (hb : Quiet tag b) : Quiet tag (a ++ b) := by
  refine ⟨ha.closed.append hb.closed, ?_, ?_⟩
  · rw [findOpen_append ha.closed, ha.noOpen, hb.noOpen]
    rfl
  · rw [findClose_append ha.closed, ha.noClose, hb.noClose]
    rfl

/-- The responses of a forest, as long as none of them is empty or holds an empty one. -/
theorem responseBlocks_forest (h : Scannable "response".toList f)
    (hempty : emptyCount "response".toList f = 0) (y : Text) :
    responseBlocks (f.render ++ y) =
      (f.outermost "response".toList).map XmlForest.render ++ responseBlocks y := by
  induction f generalizing y with
  | nil => rfl
  | leaf l rest ih =>
    rw [XmlForest.render, List.append_assoc, responseBlocks_quiet (quiet_leaf h.1), ih h.2 hempty]
    rfl
  | empty t rest ih =>
    obtain ⟨hnamed, hrest⟩ := emptyCount_empty.mp hempty
    rw [XmlForest.render, List.append_assoc,
      responseBlocks_quiet (quiet_tagText h.1 hnamed (tagText_empty t)), ih h.2 hrest,
      XmlForest.outermost, hnamed, if_neg Bool.false_ne_true]
  | node t close children rest ihchildren ih =>
    obtain ⟨hinner, hrest⟩ := Nat.add_eq_zero_iff.mp hempty
    cases hnamed : t.named "response".toList with
    | true =>
      rw [render_node, List.append_assoc, responseBlocks_eq,
        element_node solid_response ⟨h.1, h.2.1, trivial⟩ hnamed hinner]
      simp only
      rw [ih h.2.2 hrest, XmlForest.outermost, hnamed, if_pos rfl]
      rfl
    | false =>
      rw [XmlForest.render, List.append_assoc,
        responseBlocks_quiet (quiet_tagText h.1.1 hnamed (tagText_open t)), List.append_assoc,
        ihchildren h.2.1 hinner, List.append_assoc,
        responseBlocks_quiet (quiet_closeText solid_response hnamed close), ih h.2.2 hrest,
        XmlForest.outermost, hnamed, if_neg Bool.false_ne_true, List.map_append, List.append_assoc]

theorem element_of_endOf (hsolid : Solid t.name) (hnamed : t.named tag = true) (h : TagText t a)
    (hend : endOf tag 1 y = none) : element (a ++ y) tag = none := by
  obtain ⟨p, q, rfl, hq, hfind⟩ := h.findOpen_eq tag hsolid
  rw [hnamed, if_pos rfl] at hfind
  rw [element_eq, findOpen_append h.closed, hfind, Option.some_or, Option.bind_some,
    List.append_assoc, List.drop_left, endOf_quiet (quiet_of_not_mem hq), hend]
  rfl

theorem endOf_forest_none (htag : ∀ c ∈ tag, isWhite c = false) (h : Scannable tag f)
    (hend : ∀ depth, 1 ≤ depth → endOf tag depth y = none) :
    ∀ depth, 1 ≤ depth → endOf tag depth (f.render ++ y) = none := by
  intro depth hdepth
  rw [endOf_forest htag h hdepth, hend _ (by omega)]
  rfl

/-- An empty response, or one inside another, hides responses. -/
theorem length_responseBlocks_lt (h : Scannable "response".toList f)
    (hempty : emptyCount "response".toList f ≠ 0)
    (hend : ∀ depth, 1 ≤ depth → endOf "response".toList depth y = none) :
    (responseBlocks (f.render ++ y)).length < (f.outermost "response".toList).length := by
  induction f generalizing y with
  | nil => exact absurd rfl hempty
  | leaf l rest ih =>
    rw [XmlForest.render, List.append_assoc, responseBlocks_quiet (quiet_leaf h.1)]
    exact ih h.2 hempty hend
  | empty t rest ih =>
    rw [XmlForest.render, List.append_assoc, XmlForest.outermost]
    cases hnamed : t.named "response".toList with
    | true =>
      have hnone := endOf_forest_none solid_response h.2 hend 1 (Nat.le_refl 1)
      rw [responseBlocks_eq, element_of_endOf h.1 hnamed (tagText_empty t) hnone]
      exact Nat.succ_pos _
    | false =>
      rw [responseBlocks_quiet (quiet_tagText h.1 hnamed (tagText_empty t))]
      refine ih h.2 ?_ hend
      rw [emptyCount, hnamed, if_neg Bool.false_ne_true, Nat.zero_add] at hempty
      exact hempty
  | node t close children rest ihchildren ih =>
    have hrest := endOf_forest_none solid_response h.2.2 hend
    rw [XmlForest.outermost]
    cases hnamed : t.named "response".toList with
    | true =>
      rw [if_pos rfl, List.length_cons]
      by_cases hinner : emptyCount "response".toList children = 0
      · rw [render_node, List.append_assoc, responseBlocks_eq,
          element_node solid_response ⟨h.1, h.2.1, trivial⟩ hnamed hinner]
        rw [emptyCount, hinner, Nat.zero_add] at hempty
        exact Nat.succ_lt_succ (ih h.2.2 hempty hend)
      · have hnone : endOf "response".toList 1
            (children.render ++ (XmlForest.closeText t close ++ (rest.render ++ y))) = none := by
          rw [endOf_forest solid_response h.2.1 (Nat.le_refl 1), endOf_closeText solid_response h.1.2,
            if_pos hnamed, if_neg (by omega), hrest _ (by omega)]
          rfl
        rw [XmlForest.render, List.append_assoc, List.append_assoc, List.append_assoc,
          responseBlocks_eq, element_of_endOf h.1.1 hnamed (tagText_open t) hnone]
        exact Nat.succ_pos _
    | false =>
      have hclose := quiet_closeText solid_response hnamed close
      rw [if_neg Bool.false_ne_true, List.length_append, XmlForest.render, List.append_assoc,
        responseBlocks_quiet (quiet_tagText h.1.1 hnamed (tagText_open t)), List.append_assoc,
        List.append_assoc]
      by_cases hinner : emptyCount "response".toList children = 0
      · rw [responseBlocks_forest h.2.1 hinner, List.length_append, List.length_map,
          responseBlocks_quiet hclose]
        rw [emptyCount, hinner, Nat.zero_add] at hempty
        exact Nat.add_lt_add_left (ih h.2.2 hempty hend) _
      · have hlt := ihchildren (y := XmlForest.closeText t close ++ (rest.render ++ y)) h.2.1 hinner (by
          intro depth hdepth
          rw [endOf_quiet hclose, hrest depth hdepth]
          rfl)
        omega

end Forests

end Lyra
