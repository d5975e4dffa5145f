import Lyra.Dav.XmlForest

/-!
# Texts of elements

What `strip_tags` and `unescape` make of the text of a document.  `strip_tags` leaves the
characters and the references; `unescape` replaces the references it knows, one after the other,
wherever they seem to stand.

* `stripTags_forest`: what is left of a forest;
* `unescapeXml_items`: every reference is read once.
-/

namespace Lyra

open Lyra.Lib

/-! ## Replacing -/

section Replacing

variable {pat new s : Text} {c : Char}

theorem replaceText_fuel {fuel fuel' : Nat} (hpat : pat ≠ []) (h : s.length < fuel)
    (h' : s.length < fuel') : replaceText pat new fuel s = replaceText pat new fuel' s := by
  induction fuel generalizing s fuel' with
  | zero => omega
  | succ fuel ih =>
    cases fuel' with
    | zero => omega
    | succ fuel' =>
      rw [replaceText, replaceText]
      cases hfind : findText pat s with
      | none => rfl
      | some i =>
        have hs := congrArg List.length (findText_eq_some hfind)
        have hpos := List.length_pos_iff.mpr hpat
        simp only [List.length_append, List.length_take, List.length_drop] at hs
        have hrest : replaceText pat new fuel (s.drop (i + pat.length)) =
            replaceText pat new fuel' (s.drop (i + pat.length)) := by
          refine ih ?_ ?_
          all_goals
            rw [List.length_drop]
            omega
        simp only
        rw [hrest]

/-- `str::replace` from the left: a match is replaced. -/
theorem replaceText_prefix (hpat : pat ≠ []) (new s : Text) :
    replaceText pat new ((pat ++ s).length + 1) (pat ++ s) =
      new ++ replaceText pat new (s.length + 1) s := by
  have hfind : findText pat (pat ++ s) = some 0 := by
    obtain ⟨c, p, rfl⟩ := List.exists_cons_of_ne_nil hpat
    rw [List.cons_append, findText, if_pos]
    exact List.isPrefixOf_iff_prefix.mpr (List.prefix_append (c :: p) s)
  have hpos := List.length_pos_iff.mpr hpat
  rw [replaceText, hfind]
  simp only
  rw [List.take_zero, List.nil_append, Nat.zero_add, List.drop_left]
  congr 1
  refine replaceText_fuel hpat ?_ (Nat.lt_succ_self _)
  rw [List.length_append]
  omega

/-- `str::replace` from the left: other characters stay. -/
theorem replaceText_cons (hpat : pat ≠ []) (h : pat.isPrefixOf (c :: s) = false) (new : Text) :
    replaceText pat new ((c :: s).length + 1) (c :: s) =
      c :: replaceText pat new (s.length + 1) s := by
  rw [replaceText, findText, if_neg (by simp [h]), List.length_cons, replaceText]
  cases hfind : findText pat s with
  | none => rfl
  | some i =>
    have hs := congrArg List.length (findText_eq_some hfind)
    have hpos := List.length_pos_iff.mpr hpat
    have hdrop : (c :: s).drop (i + 1 + pat.length) = s.drop (i + pat.length) := by
      rw [Nat.add_right_comm]
      rfl
    simp only [List.length_append, List.length_take, List.length_drop] at hs
    simp only [Option.map_some]
    rw [hdrop, List.take_succ_cons, List.cons_append, List.cons_append]
    congr 2
    refine replaceText_fuel hpat ?_ ?_
    all_goals
      rw [List.length_drop]
      omega

end Replacing

/-! ## Stripping -/

section Stripping

variable {s p y : Text} {c : Char}

/-- Characters before the next bracket. -/
theorem stripTagsFrom_run (hc : c ≠ '<') (fuel : Nat) (s : Text) :
    stripTagsFrom (fuel + 1) (c :: s) =
      c :: (s.takeWhile (· ≠ '<') ++ stripTagsFrom fuel (s.dropWhile (· ≠ '<'))) := by
  have hrun : (c :: s).takeWhile (· ≠ '<') = c :: s.takeWhile (· ≠ '<') :=
    List.takeWhile_cons_of_pos (decide_eq_true hc)
  have hdrop : (c :: s).drop (c :: s.takeWhile (· ≠ '<')).length = s.dropWhile (· ≠ '<') := by
    have hs : s.takeWhile (· ≠ '<') ++ s.dropWhile (· ≠ '<') = s :=
      List.takeWhile_append_dropWhile
    have hall := congrArg (List.drop (s.takeWhile (· ≠ '<')).length) hs
    rw [List.drop_left] at hall
    exact hall.symm
  rw [stripTagsFrom]
  · rw [hrun, hdrop]
    rfl
  · rintro rfl
    exact hc rfl

theorem stripTagsFrom_bracket (fuel : Nat) (s : Text) : stripTagsFrom (fuel + 1) ('<' :: s) =
    if cdataOpen.isPrefixOf ('<' :: s) then
      match findText cdataClose (('<' :: s).drop cdataOpen.length) with
      | none => ('<' :: s).drop cdataOpen.length
      | some stop => (('<' :: s).drop cdataOpen.length).take stop ++
          stripTagsFrom fuel ((('<' :: s).drop cdataOpen.length).drop (stop + 3))
    else
      match findText ['>'] ('<' :: s) with
      | none => []
      | some gt => stripTagsFrom fuel (('<' :: s).drop (gt + 1)) := rfl

theorem stripTagsFrom_fuel {fuel fuel' : Nat} (h : s.length < fuel) (h' : s.length < fuel') :
    stripTagsFrom fuel s = stripTagsFrom fuel' s := by
  induction fuel generalizing s fuel' with
  | zero => omega
  | succ fuel ih =>
    cases fuel' with
    | zero => omega
    | succ fuel' =>
      cases s with
      | nil => rfl
      | cons c s =>
        rw [List.length_cons] at h h'
        by_cases hc : c = '<'
        · subst hc
          have hlength : cdataOpen.length = 9 := by decide
          have hrest : ∀ k, stripTagsFrom fuel (('<' :: s).drop (k + 1)) =
              stripTagsFrom fuel' (('<' :: s).drop (k + 1)) := by
            intro k
            refine ih ?_ ?_
            all_goals
              rw [List.drop_succ_cons, List.length_drop]
              omega
          rw [stripTagsFrom_bracket, stripTagsFrom_bracket]
          split
          · cases findText cdataClose (('<' :: s).drop cdataOpen.length) with
            | none => rfl
            | some stop =>
              have hstop := hrest (8 + (stop + 3))
              rw [Nat.add_right_comm, ← List.drop_drop] at hstop
              simp only
              rw [hlength, hstop]
          · cases findText ['>'] ('<' :: s) with
            | none => rfl
            | some gt => exact hrest gt
        · have hdrop : (s.dropWhile (· ≠ '<')).length ≤ s.length := List.length_dropWhile_le _ s
          have hrest : stripTagsFrom fuel (s.dropWhile (· ≠ '<')) =
              stripTagsFrom fuel' (s.dropWhile (· ≠ '<')) := ih (by omega) (by omega)
          rw [stripTagsFrom_run hc, stripTagsFrom_run hc, hrest]

theorem stripTags_cons (hc : c ≠ '<') (s : Text) : stripTags (c :: s) = c :: stripTags s := by
  unfold stripTags
  rw [List.length_cons, stripTagsFrom_run hc]
  congr 1
  cases s with
  | nil => rfl
  | cons d s =>
    by_cases hd : d = '<'
    · subst hd
      rfl
    · have htake : (d :: s).takeWhile (· ≠ '<') = d :: s.takeWhile (· ≠ '<') :=
        List.takeWhile_cons_of_pos (decide_eq_true hd)
      have hdrop : (d :: s).dropWhile (· ≠ '<') = s.dropWhile (· ≠ '<') :=
        List.dropWhile_cons_of_pos (decide_eq_true hd)
      have hlength : (s.dropWhile (· ≠ '<')).length ≤ s.length := List.length_dropWhile_le _ s
      have hfuel : stripTagsFrom (s.length + 1 + 1) (s.dropWhile (· ≠ '<')) =
          stripTagsFrom (s.length + 1) (s.dropWhile (· ≠ '<')) :=
        stripTagsFrom_fuel (by omega) (by omega)
      rw [htake, hdrop, List.length_cons, hfuel, stripTagsFrom_run hd]
      rfl

theorem stripTags_append (h : '<' ∉ p) (s : Text) : stripTags (p ++ s) = p ++ stripTags s := by
  induction p with
  | nil => rfl
  | cons c p ih =>
    obtain ⟨hc, hp⟩ := List.ne_and_not_mem_of_not_mem_cons h
    rw [List.cons_append, stripTags_cons hc.symm, ih hp, List.cons_append]

theorem stripTags_tag (hp : '>' ∉ p) (hstart : cdataOpen.isPrefixOf ('<' :: (p ++ '>' :: s)) = false) :
    stripTags ('<' :: (p ++ '>' :: s)) = stripTags s := by
  have hfind : findText ['>'] ('<' :: (p ++ '>' :: s)) = some (p.length + 1) :=
    findText_singleton (List.not_mem_cons_of_ne_of_not_mem (by decide) hp) s
  have hdrop : ('<' :: (p ++ '>' :: s)).drop (p.length + 1 + 1) = s := by
    rw [List.drop_succ_cons, ← List.drop_drop, List.drop_left]
    rfl
  unfold stripTags
  rw [List.length_cons, stripTagsFrom_bracket, if_neg (by rw [hstart]; exact Bool.false_ne_true), hfind]
  simp only
  rw [hdrop]
  refine stripTagsFrom_fuel ?_ (Nat.lt_succ_self _)
  simp only [List.length_append, List.length_cons]
  omega

theorem cdata_eq : cdataOpen = ['<', '!', '[', 'C', 'D', 'A', 'T', 'A', '['] ∧
    cdataClose = [']', ']', '>'] := by decide

theorem findText_cdataClose (h : ∀ a b, p ≠ a ++ (']' :: ']' :: '>' :: b)) (s : Text) :
    findText cdataClose (p ++ (cdataClose ++ s)) = some p.length := by
  rw [cdata_eq.2]
  induction p with
  | nil => rfl
  | cons c p ih =>
    have hnot : [']', ']', '>'].isPrefixOf (c :: (p ++ ([']', ']', '>'] ++ s))) = false := by
      cases p with
      | nil => simp [List.isPrefixOf]
      | cons d p =>
        cases p with
        | nil => simp [List.isPrefixOf]
        | cons e p =>
          by_contra hpre
          have hpre' : ']' = c ∧ ']' = d ∧ '>' = e := by simpa [List.isPrefixOf] using hpre
          obtain ⟨rfl, rfl, rfl⟩ := hpre'
          exact h [] p rfl
    rw [List.cons_append, findText, if_neg (by rw [hnot]; exact Bool.false_ne_true),
      ih fun a b hab => h (c :: a) b (by rw [hab]; rfl)]
    rfl

theorem stripTags_cdata (h : ∀ a b, p ≠ a ++ (']' :: ']' :: '>' :: b)) (s : Text) :
    stripTags (cdataOpen ++ (p ++ (cdataClose ++ s))) = p ++ stripTags s := by
  have hhead : ∃ r, cdataOpen = '<' :: r := ⟨_, cdata_eq.1⟩
  have hstarts : cdataOpen.isPrefixOf (cdataOpen ++ (p ++ (cdataClose ++ s))) = true :=
    List.isPrefixOf_iff_prefix.mpr (List.prefix_append _ _)
  have hdrop : (p ++ (cdataClose ++ s)).drop (p.length + 3) = s := by
    rw [← List.drop_drop, List.drop_left]
    exact List.drop_left' (by decide)
  obtain ⟨r, hr⟩ := hhead
  have hcons : cdataOpen ++ (p ++ (cdataClose ++ s)) = '<' :: (r ++ (p ++ (cdataClose ++ s))) := by
    rw [hr]
    rfl
  unfold stripTags
  rw [hcons] at hstarts ⊢
  rw [List.length_cons, stripTagsFrom_bracket, if_pos hstarts, ← hcons, List.drop_left,
    findText_cdataClose h]
  simp only
  rw [List.take_left, hdrop]
  congr 1
  refine stripTagsFrom_fuel ?_ (Nat.lt_succ_self _)
  simp only [List.length_append]
  omega

end Stripping

/-! ## Items -/

/-- What is left of a text without its tags. -/
inductive XmlItem
  | char (c : Char)
  | ref (r : XmlRef)

def XmlItem.render : XmlItem → Text
  | char c => [c]
  | ref r => r.render

def XmlItem.meaning : XmlItem → Char
  | char c => c
  | ref r => r.char

def leafItems : XmlLeaf → List XmlItem
  | .text s _ => s.map .char
  | .ref r => [.ref r]
  | .cdata s _ => s.map .char
  | .comment _ _ => []
  | .instruction _ _ => []

def items : XmlForest → List XmlItem
  | .nil => []
  | .leaf l rest => leafItems l ++ items rest
  | .empty _ rest => items rest
  | .node _ _ children rest => items children ++ items rest

def itemsText (items : List XmlItem) : Text := items.flatMap XmlItem.render

/-- The references that `unescape` knows, in its order. -/
def xmlEntities : List (String × String) :=
  [("&lt;", "<"), ("&gt;", ">"), ("&quot;", "\""), ("&#39;", "'"), ("&apos;", "'"), ("&amp;", "&")]

def KnownRef (r : XmlRef) : Prop := ∃ e ∈ xmlEntities, e.1.toList = r.render

/-- Markup that is no tag ends at its first bracket, line ends are line feeds, and the references
are known. -/
def PlainLeaf : XmlLeaf → Prop
  | .text s _ => '\r' ∉ s
  | .ref r => KnownRef r
  | .cdata s _ => '\r' ∉ s
  | .comment s _ => '>' ∉ s
  | .instruction s _ => '>' ∉ s

/-- Every tag ends at its first bracket, too. -/
def Strippable : XmlForest → Prop
  | .nil => True
  | .leaf l rest => PlainLeaf l ∧ Strippable rest
  | .empty t rest => '>' ∉ t.tail ∧ Strippable rest
  | .node t _ children rest => '>' ∉ t.tail ∧ Strippable children ∧ Strippable rest

section Items

variable {f : XmlForest} {t : XmlTag} {l : XmlLeaf} {y : Text} {c : Char}

theorem cdataOpen_of_ne {r : Text} (h : r.head? ≠ some '!') :
    cdataOpen.isPrefixOf ('<' :: r) = false := by
  rw [cdata_eq.1]
  cases r with
  | nil => rfl
  | cons c r =>
    have hc : '!' ≠ c := fun hc => h (by rw [hc]; rfl)
    simp [List.isPrefixOf, hc]

theorem head_bang (n : XmlName) (r : Text) : (n.render ++ r).head? ≠ some '!' := by
  obtain ⟨d, s, hn⟩ := List.exists_cons_of_ne_nil (name_ne_nil n)
  have hd : d ≠ '!' := by
    have hmem : d ∈ n.render := by rw [hn]; exact List.mem_cons_self
    exact ne_of_mem_of_not_mem hmem (not_mem_name (by decide) (by decide) n)
  rw [hn, List.cons_append, List.head?_cons]
  simpa using hd

theorem stripTags_openText (h : '>' ∉ t.tail) (y : Text) :
    stripTags (XmlForest.openText t ++ y) = stripTags y := by
  have hp : '>' ∉ t.render := List.not_mem_append (not_mem_name (by decide) (by decide) _) h
  have htext : XmlForest.openText t ++ y = '<' :: (t.render ++ '>' :: y) := by
    simp [XmlForest.openText]
  rw [htext]
  refine stripTags_tag hp (cdataOpen_of_ne ?_)
  rw [XmlTag.render, List.append_assoc]
  exact head_bang _ _

theorem stripTags_emptyText (h : '>' ∉ t.tail) (y : Text) :
    stripTags (XmlForest.emptyText t ++ y) = stripTags y := by
  have hp : '>' ∉ t.render ++ ['/'] := List.not_mem_append
    (List.not_mem_append (not_mem_name (by decide) (by decide) _) h) (by decide)
  have htext : XmlForest.emptyText t ++ y = '<' :: (t.render ++ ['/'] ++ '>' :: y) := by
    simp [XmlForest.emptyText]
  rw [htext]
  refine stripTags_tag hp (cdataOpen_of_ne ?_)
  rw [XmlTag.render, List.append_assoc, List.append_assoc]
  exact head_bang _ _

theorem stripTags_closeText (t : XmlTag) (close : XmlSpaces) (y : Text) :
    stripTags (XmlForest.closeText t close ++ y) = stripTags y := by
  have hp : '>' ∉ '/' :: (t.name.render ++ close.chars) :=
    List.not_mem_cons_of_ne_of_not_mem (by decide)
      (List.not_mem_append (not_mem_name (by decide) (by decide) _) (not_mem_spaces (by decide) _))
  have htext : XmlForest.closeText t close ++ y =
      '<' :: ('/' :: (t.name.render ++ close.chars) ++ '>' :: y) := by
    rw [closeText_eq]
    simp
  rw [htext]
  refine stripTags_tag hp (cdataOpen_of_ne ?_)
  rw [List.cons_append, List.head?_cons]
  decide

theorem flatMap_char (s : Text) : itemsText (s.map .char) = s := by
  unfold itemsText
  rw [List.flatMap_map]
  exact List.flatMap_singleton' s

theorem stripTags_leaf (h : PlainLeaf l) (y : Text) :
    stripTags (l.render ++ y) = itemsText (leafItems l) ++ stripTags y := by
  cases l with
  | text s plain =>
    rw [leafItems, flatMap_char]
    exact stripTags_append plain.1 y
  | ref r =>
    have hitems : itemsText (leafItems (.ref r)) = r.render := List.append_nil _
    rw [hitems]
    exact stripTags_append (not_mem_ref r) y
  | cdata s plain =>
    rw [leafItems, flatMap_char, XmlLeaf.render, List.append_assoc, List.append_assoc]
    exact stripTags_cdata plain y
  | comment s plain =>
    have hmarks : commentStart = ['<', '!', '-', '-'] ∧ commentStop = ['-', '-', '>'] := by decide
    have htext : (XmlLeaf.comment s plain).render ++ y =
        '<' :: (['!', '-', '-'] ++ (s ++ ['-', '-']) ++ '>' :: y) := by
      rw [XmlLeaf.render, hmarks.1, hmarks.2]
      simp
    have hp : '>' ∉ ['!', '-', '-'] ++ (s ++ ['-', '-']) :=
      List.not_mem_append (by decide) (List.not_mem_append h (by decide))
    rw [htext]
    refine stripTags_tag hp ?_
    rw [cdata_eq.1]
    simp [List.isPrefixOf]
  | instruction s plain =>
    have hmarks : instructionStart = ['<', '?'] ∧ instructionStop = ['?', '>'] := by decide
    have htext : (XmlLeaf.instruction s plain).render ++ y =
        '<' :: (['?'] ++ (s ++ ['?']) ++ '>' :: y) := by
      rw [XmlLeaf.render, hmarks.1, hmarks.2]
      simp
    have hp : '>' ∉ ['?'] ++ (s ++ ['?']) :=
      List.not_mem_append (by decide) (List.not_mem_append h (by decide))
    rw [htext]
    refine stripTags_tag hp (cdataOpen_of_ne ?_)
    simp

/-- The tags are taken away, and nothing else. -/
theorem stripTags_forest (h : Strippable f) (y : Text) :
    stripTags (f.render ++ y) = itemsText (items f) ++ stripTags y := by
  have happend : ∀ a b, itemsText (a ++ b) = itemsText a ++ itemsText b := fun _ _ =>
    List.flatMap_append
  induction f generalizing y with
  | nil => rfl
  | leaf l rest ih =>
    rw [XmlForest.render, List.append_assoc, stripTags_leaf h.1, ih h.2, items, happend,
      List.append_assoc]
  | empty t rest ih =>
    rw [XmlForest.render, List.append_assoc, stripTags_emptyText h.1, ih h.2, items]
  | node t close children rest ihchildren ih =>
    rw [XmlForest.render, List.append_assoc, stripTags_openText h.1, List.append_assoc,
      ihchildren h.2.1, List.append_assoc, stripTags_closeText, ih h.2.2, items, happend,
      List.append_assoc]

/-- Without other line ends, an element means the characters of its items. -/
theorem content_eq (h : Strippable f) : f.content = (items f).map XmlItem.meaning := by
  have hchars : ∀ s : Text, (s.map XmlItem.char).map XmlItem.meaning = s := by
    intro s
    rw [List.map_map]
    exact List.map_id s
  induction f with
  | nil => rfl
  | leaf l rest ih =>
    rw [XmlForest.content, ih h.2, items, List.map_append]
    congr 1
    cases l with
    | text s plain => exact (normalizeLines_of_not_mem h.1).trans (hchars s).symm
    | ref r => rfl
    | cdata s plain => exact (normalizeLines_of_not_mem h.1).trans (hchars s).symm
    | comment s plain => rfl
    | instruction s plain => rfl
  | empty t rest ih => exact ih h.2
  | node t close children rest ihchildren ih =>
    rw [XmlForest.content, ihchildren h.2.1, ih h.2.2, items, List.map_append]

end Items

/-! ## References -/

/-- No ampersand that is a character itself seems to begin a reference. -/
def AmpersandsPlain (items : List XmlItem) : Prop :=
  ∀ a b, items = a ++ .char '&' :: b →
    ∀ e ∈ xmlEntities, ¬ e.1.toList.tail.map XmlItem.char <+: b

/-- An item when some references have been replaced. -/
def stageItem (done : List (String × String)) : XmlItem → Text
  | .char c => [c]
  | .ref r => if done.any fun e => e.1.toList == r.render then [r.char] else r.render

def stageText (done : List (String × String)) (items : List XmlItem) : Text :=
  items.flatMap (stageItem done)

def AllKnown (items : List XmlItem) : Prop := ∀ r, .ref r ∈ items → KnownRef r

section References

variable {done rest : List (String × String)} {e d : String × String} {its : List XmlItem}
  {r : XmlRef} {c : Char} {s t : Text}

theorem entity_text (he : e ∈ xmlEntities) : e.1.toList = '&' :: e.1.toList.tail := by
  have hall : ∀ e ∈ xmlEntities, e.1.toList = '&' :: e.1.toList.tail := by decide
  exact hall e he

theorem entity_tail (he : e ∈ xmlEntities) :
    ∀ c ∈ e.1.toList.tail, c ∉ ['&', '<', '>', '"', '\''] := by
  have hall : ∀ e ∈ xmlEntities,
      e.1.toList.tail.all (fun c => decide (c ∉ ['&', '<', '>', '"', '\''])) = true := by decide
  exact forall_mem_of_all (hall e he)

theorem entity_ends (he : e ∈ xmlEntities) : ∃ a, e.1.toList = a ++ [';'] ∧ ';' ∉ a := by
  have hall : ∀ e ∈ xmlEntities, e.1.toList = e.1.toList.dropLast ++ [';'] ∧
      ';' ∉ e.1.toList.dropLast := by decide
  exact ⟨_, hall e he⟩

/-- No reference is the beginning of another. -/
theorem entity_starts (he : e ∈ xmlEntities) (hd : d ∈ xmlEntities)
    (h : e.1.toList <+: d.1.toList ++ s) : e.1.toList = d.1.toList := by
  obtain ⟨a, ha, hna⟩ := entity_ends he
  obtain ⟨b, hb, hnb⟩ := entity_ends hd
  obtain ⟨x, hx⟩ := h
  have htake : ∀ (p q : Text), ';' ∉ p → (p ++ [';'] ++ q).takeWhile (· ≠ ';') = p := by
    intro p q hp
    rw [List.append_assoc, List.takeWhile_append_of_pos fun c hc =>
      decide_eq_true (ne_of_mem_of_not_mem hc hp), List.singleton_append,
      List.takeWhile_cons_of_neg (by decide), List.append_nil]
  rw [ha, hb] at hx
  have heq := congrArg (List.takeWhile (· ≠ ';')) hx
  rw [htake a x hna, htake b s hnb] at heq
  rw [ha, hb, heq]

theorem known_char (he : e ∈ xmlEntities) (h : e.1.toList = r.render) : e.2.toList = [r.char] := by
  have hnumber : ∀ digits : Text, "&#".toList ++ digits ++ [';'] = '&' :: '#' :: (digits ++ [';']) ∧
      "&#x".toList ++ digits ++ [';'] = '&' :: '#' :: 'x' :: (digits ++ [';']) := by
    intro digits
    have hmarks : "&#".toList = ['&', '#'] ∧ "&#x".toList = ['&', '#', 'x'] := by decide
    rw [hmarks.1, hmarks.2]
    exact ⟨rfl, rfl⟩
  cases r with
  | amp =>
    have hall : ∀ e ∈ xmlEntities, e.1.toList = "&amp;".toList → e.2.toList = ['&'] := by decide
    exact hall e he h
  | lt =>
    have hall : ∀ e ∈ xmlEntities, e.1.toList = "&lt;".toList → e.2.toList = ['<'] := by decide
    exact hall e he h
  | gt =>
    have hall : ∀ e ∈ xmlEntities, e.1.toList = "&gt;".toList → e.2.toList = ['>'] := by decide
    exact hall e he h
  | quot =>
    have hall : ∀ e ∈ xmlEntities, e.1.toList = "&quot;".toList → e.2.toList = ['"'] := by decide
    exact hall e he h
  | apos =>
    have hall : ∀ e ∈ xmlEntities, e.1.toList = "&apos;".toList → e.2.toList = ['\''] := by decide
    exact hall e he h
  | decimal digits plain =>
    have hall : ∀ e ∈ xmlEntities, e.1.toList.tail.head? = some '#' →
        e.1.toList = '&' :: '#' :: (['3', '9'] ++ [';']) ∧ e.2.toList = ['\''] := by decide
    have hrender := h.trans (hnumber digits).1
    obtain ⟨htext, hchar⟩ := hall e he (by rw [hrender]; rfl)
    rw [hrender] at htext
    have hdigits : digits = ['3', '9'] :=
      List.append_cancel_right (List.cons.inj (List.cons.inj htext).2).2
    subst hdigits
    exact hchar
  | hexadecimal digits plain =>
    have hall : ∀ e ∈ xmlEntities, (e.1.toList.drop 2).head? ≠ some 'x' := by decide
    have hrender := h.trans (hnumber digits).2
    exact absurd (by rw [hrender]; rfl) (hall e he)

theorem replaceText_skip (he : e ∈ xmlEntities) (new : Text) (hs : '&' ∉ s) (t : Text) :
    replaceText e.1.toList new ((s ++ t).length + 1) (s ++ t) =
      s ++ replaceText e.1.toList new (t.length + 1) t := by
  have hne : e.1.toList ≠ [] := by
    rw [entity_text he]
    exact List.cons_ne_nil _ _
  induction s with
  | nil => rfl
  | cons c s ih =>
    obtain ⟨hc, hs⟩ := List.ne_and_not_mem_of_not_mem_cons hs
    have hnot : e.1.toList.isPrefixOf (c :: (s ++ t)) = false := by
      rw [entity_text he]
      simp [List.isPrefixOf, hc]
    rw [List.cons_append, replaceText_cons hne hnot, ih hs, List.cons_append]

theorem stageText_cons (i : XmlItem) :
    stageText done (i :: its) = stageItem done i ++ stageText done its :=
  rfl

theorem AllKnown.tail {i : XmlItem} (h : AllKnown (i :: its)) : AllKnown its :=
  fun r hr => h r (List.mem_cons_of_mem _ hr)

theorem AmpersandsPlain.tail {i : XmlItem} (h : AmpersandsPlain (i :: its)) : AmpersandsPlain its :=
  fun a b hab => h (i :: a) b (by rw [hab]; rfl)

theorem stageItem_eq (done : List (String × String)) (r : XmlRef) : stageItem done (.ref r) =
    if done.any fun e => e.1.toList == r.render then [r.char] else r.render := rfl

/-- A reference never looks like the rest of another one. -/
theorem stageItem_ref (done : List (String × String)) (hknown : KnownRef r) :
    ∃ c u, stageItem done (.ref r) = c :: u ∧ c ∈ ['&', '<', '>', '"', '\''] := by
  obtain ⟨e, he, htext⟩ := hknown
  have hall : ∀ e ∈ xmlEntities,
      e.2.toList.all (fun c => decide (c ∈ ['&', '<', '>', '"', '\''])) = true := by decide
  rw [stageItem_eq]
  split
  · exact ⟨r.char, [], rfl,
      forall_mem_of_all (hall e he) _ (by rw [known_char he htext]; exact List.mem_cons_self)⟩
  · exact ⟨'&', e.1.toList.tail, htext.symm.trans (entity_text he), List.mem_cons_self⟩

/-- The rest of a reference is there only if its characters are. -/
theorem map_char_starts (hs : ∀ c ∈ s, c ∉ ['&', '<', '>', '"', '\'']) (hknown : AllKnown its)
    (h : s <+: stageText done its) : s.map XmlItem.char <+: its := by
  induction s generalizing its with
  | nil => exact List.nil_prefix
  | cons c s ih =>
    obtain ⟨x, hx⟩ := h
    cases its with
    | nil => cases hx
    | cons i its =>
      rw [stageText_cons] at hx
      cases i with
      | char d =>
        obtain ⟨rfl, hrest⟩ := List.cons.inj hx
        exact List.cons_prefix_cons.mpr
          ⟨rfl, ih (fun x hx => hs x (List.mem_cons_of_mem _ hx)) hknown.tail ⟨x, hrest⟩⟩
      | ref r =>
        obtain ⟨d, u, hd, hmem⟩ := stageItem_ref done (hknown r List.mem_cons_self)
        rw [hd] at hx
        obtain ⟨rfl, -⟩ := List.cons.inj hx
        exact absurd hmem (hs c List.mem_cons_self)

/-- One replacement. -/
theorem replaceText_stage (he : e ∈ xmlEntities) (hdone : ∀ d ∈ done, d ∈ xmlEntities ∧ d.2 ≠ "&")
    (hknown : AllKnown its) (hplain : AmpersandsPlain its) :
    replaceText e.1.toList e.2.toList ((stageText done its).length + 1) (stageText done its) =
      stageText (done ++ [e]) its := by
  have hne : e.1.toList ≠ [] := by
    rw [entity_text he]
    exact List.cons_ne_nil _ _
  have hnot : ∀ (c : Char) (t : Text), c ≠ '&' → e.1.toList.isPrefixOf (c :: t) = false := by
    intro c t hc
    rw [entity_text he]
    simp [List.isPrefixOf, hc.symm]
  induction its with
  | nil =>
    have hfind : findText e.1.toList [] = none := by
      rw [findText, if_neg hne]
    have hnil : stageText done [] = [] := rfl
    rw [hnil, replaceText, hfind]
    rfl
  | cons i its ih =>
    have hrest := ih hknown.tail hplain.tail
    rw [stageText_cons, stageText_cons, ← hrest]
    cases i with
    | char c =>
      have hpre : e.1.toList.isPrefixOf (c :: stageText done its) = false := by
        by_cases hc : c = '&'
        · subst hc
          by_contra h
          have hstarts := List.isPrefixOf_iff_prefix.mp (Bool.of_not_eq_false h)
          rw [entity_text he] at hstarts
          exact hplain [] its rfl e he (map_char_starts (entity_tail he) hknown.tail
            (List.cons_prefix_cons.mp hstarts).2)
        · exact hnot c _ hc
      exact replaceText_cons hne hpre _
    | ref r =>
      obtain ⟨d, hd, htext⟩ := hknown r List.mem_cons_self
      rw [stageItem_eq, stageItem_eq, List.any_append]
      cases hany : done.any fun e => e.1.toList == r.render with
      | true =>
        -- a replaced reference is no ampersand
        obtain ⟨x, hx, hxr⟩ := List.any_eq_true.mp hany
        obtain ⟨hxe, hxa⟩ := hdone x hx
        have hchar : r.char ≠ '&' := by
          intro hamp
          have hx2 := known_char hxe (beq_iff_eq.mp hxr)
          rw [hamp] at hx2
          exact hxa (String.ext hx2)
        rw [if_pos rfl, Bool.true_or, if_pos rfl]
        exact replaceText_cons hne (hnot _ _ hchar) _
      | false =>
        by_cases hsame : e.1.toList = r.render
        · have hone : ([e].any fun e => e.1.toList == r.render) = true := by simp [hsame]
          rw [if_neg Bool.false_ne_true, hone, Bool.false_or, if_pos rfl, ← known_char he hsame,
            ← hsame]
          exact replaceText_prefix hne _ _
        · have hone : ([e].any fun e => e.1.toList == r.render) = false := by simp [hsame]
          rw [if_neg Bool.false_ne_true, hone, Bool.false_or, if_neg Bool.false_ne_true]
          have hpre : e.1.toList.isPrefixOf (r.render ++ stageText done its) = false := by
            by_contra h
            have hstarts := List.isPrefixOf_iff_prefix.mp (Bool.of_not_eq_false h)
            rw [← htext] at hstarts
            exact hsame ((entity_starts he hd hstarts).trans htext)
          have htail : '&' ∉ d.1.toList.tail := fun hmem => entity_tail hd _ hmem (by simp)
          rw [← htext, entity_text hd, List.cons_append] at hpre ⊢
          rw [replaceText_cons hne hpre, replaceText_skip he _ htail, List.cons_append]

theorem foldl_stage (hdone : ∀ d ∈ done, d ∈ xmlEntities ∧ d.2 ≠ "&") (hknown : AllKnown its)
    (hplain : AmpersandsPlain its) (hrest : ∀ e ∈ rest, e ∈ xmlEntities)
    (hlast : ∀ a b e, rest = a ++ e :: b → b ≠ [] → e.2 ≠ "&") :
    rest.foldl (fun s e => replaceText e.1.toList e.2.toList (s.length + 1) s) (stageText done its) =
      stageText (done ++ rest) its := by
  induction rest generalizing done with
  | nil => rw [List.append_nil]; rfl
  | cons e rest ih =>
    have he := hrest e List.mem_cons_self
    rw [List.foldl_cons, replaceText_stage he hdone hknown hplain]
    by_cases hnil : rest = []
    · subst hnil
      rfl
    · have hnext : ∀ d ∈ done ++ [e], d ∈ xmlEntities ∧ d.2 ≠ "&" := by
        intro d hd
        rcases List.mem_append.mp hd with hd | hd
        · exact hdone d hd
        · rw [List.mem_singleton.mp hd]
          exact ⟨he, hlast [] rest e rfl hnil⟩
      rw [ih hnext (fun d hd => hrest d (List.mem_cons_of_mem _ hd))
        fun a b d hab => hlast (e :: a) b d (by rw [hab]; rfl), List.append_assoc]
      rfl

/-- Every reference is read once, and nothing else is read as one. -/
theorem unescapeXml_items (hknown : AllKnown its) (hplain : AmpersandsPlain its) :
    unescapeXml (itemsText its) = its.map XmlItem.meaning := by
  have hlast : ∀ a b e, xmlEntities = a ++ e :: b → b ≠ [] → e.2 ≠ "&" := by
    have hinit : ∀ e ∈ xmlEntities.dropLast, e.2 ≠ "&" := by decide
    intro a b e hab hb
    refine hinit e ?_
    rw [hab, List.dropLast_append_of_ne_nil (List.cons_ne_nil e b), List.dropLast_cons_of_ne_nil hb]
    simp
  have hstart : itemsText its = stageText [] its := by
    refine List.flatMap_congr fun i _ => ?_
    cases i <;> rfl
  have hend : stageText xmlEntities its = its.map XmlItem.meaning := by
    rw [List.map_eq_flatMap]
    refine List.flatMap_congr fun i hi => ?_
    cases i with
    | char c => rfl
    | ref r =>
      obtain ⟨e, he, htext⟩ := hknown r hi
      have hany : (xmlEntities.any fun e => e.1.toList == r.render) = true :=
        List.any_eq_true.mpr ⟨e, he, beq_iff_eq.mpr htext⟩
      rw [stageItem_eq, if_pos hany]
      rfl
  have hfold := foldl_stage (fun d hd => absurd hd List.not_mem_nil) hknown hplain
    (fun e he => he) hlast
  rw [← hstart, List.nil_append, hend] at hfold
  exact hfold

end References

end Lyra
