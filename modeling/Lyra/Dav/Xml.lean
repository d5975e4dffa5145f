import Lyra.Store.Codec

/-!
# Tolerant XML scanning

`dav_protocol.rs` reads DAV answers by scanning for tags whose local name matches, whatever
their prefix.  Positions are indices into the text; the loops that move a position forward
take the length of the text as their bound.
-/

namespace Lyra

/-! ## Texts -/

/-- `char::is_whitespace`. -/
def isWhite (c : Char) : Bool :=
  let n := c.toNat
  (9 ≤ n && n ≤ 13) || n == 32 || n == 0x85 || n == 0xa0 || n == 0x1680 ||
    (0x2000 ≤ n && n ≤ 0x200a) || n == 0x2028 || n == 0x2029 || n == 0x202f || n == 0x205f ||
    n == 0x3000

def trimStart (s : Text) : Text := s.dropWhile isWhite

def trimText (s : Text) : Text := (trimStart (trimStart s).reverse).reverse

/-- `str::find`. -/
def findText (pat : Text) : Text → Option Nat
  | [] => if pat = [] then some 0 else none
  | c :: s => if pat.isPrefixOf (c :: s) then some 0 else (findText pat s).map (· + 1)

theorem findText_eq_some {pat s : Text} {i : Nat} (h : findText pat s = some i) :
    s = s.take i ++ (pat ++ s.drop (i + pat.length)) := by
  induction s generalizing i with
  | nil =>
    unfold findText at h
    split at h
    · rename_i hpat
      rw [← Option.some.inj h, hpat]
      rfl
    · cases h
  | cons c s ih =>
    unfold findText at h
    split at h
    · rename_i hpre
      obtain ⟨r, hr⟩ := List.isPrefixOf_iff_prefix.mp hpre
      rw [← Option.some.inj h, List.take_zero, List.nil_append, Nat.zero_add, ← hr,
        List.drop_left]
    · obtain ⟨j, hj, rfl⟩ := Option.map_eq_some_iff.mp h
      rw [List.take_succ_cons, List.cons_append, Nat.add_right_comm, List.drop_succ_cons, ← ih hj]

theorem findText_none {pat s : Text} (h : ¬pat <:+: s) : findText pat s = none := by
  cases hfind : findText pat s with
  | none => rfl
  | some i =>
    have hs := findText_eq_some hfind
    rw [← List.append_assoc] at hs
    exact absurd ⟨s.take i, s.drop (i + pat.length), hs.symm⟩ h

theorem not_infix_of_findText_none {pat s : Text} (h : findText pat s = none) : ¬pat <:+: s := by
  intro hpat
  rw [List.infix_iff_prefix_suffix] at hpat
  obtain ⟨t, hpre, hsuf⟩ := hpat
  induction s with
  | nil =>
    rw [List.suffix_nil.mp hsuf, List.prefix_nil] at hpre
    rw [findText, if_pos hpre] at h
    cases h
  | cons c s ih =>
    rw [findText] at h
    split at h
    · cases h
    · rename_i hnot
      rcases List.suffix_cons_iff.mp hsuf with rfl | hsuf
      · exact hnot (List.isPrefixOf_iff_prefix.mpr hpre)
      · exact ih (Option.map_eq_none_iff.mp h) hsuf

/-- Nothing before the pattern overlaps an earlier occurrence. -/
theorem findText_first {pat a : Text} (h : ¬pat <:+: a ++ pat.dropLast) (b : Text) :
    findText pat (a ++ pat ++ b) = some a.length := by
  induction a with
  | nil =>
    rw [List.nil_append]
    cases hs : pat ++ b with
    | nil =>
      rw [findText, if_pos (List.append_eq_nil_iff.mp hs).1]
      rfl
    | cons c s =>
      have hpat : pat.isPrefixOf (c :: s) = true :=
        List.isPrefixOf_iff_prefix.mpr (hs ▸ List.prefix_append pat b)
      rw [findText, if_pos hpat]
      rfl
  | cons c a ih =>
    have hrest : ¬pat <:+: a ++ pat.dropLast :=
      fun hin => h (hin.trans (List.suffix_cons c _).isInfix)
    rw [List.cons_append, List.cons_append, findText, if_neg, ih hrest]
    · rfl
    · intro hpat
      have hlong : c :: a ++ pat.dropLast <+: c :: (a ++ pat ++ b) := by
        rw [← List.cons_append, ← List.cons_append, List.append_assoc]
        exact (List.prefix_append_right_inj (c :: a)).mpr
          ((List.dropLast_prefix pat).trans (List.prefix_append pat b))
      have hlen : pat.length ≤ (c :: a ++ pat.dropLast).length := by
        rw [List.length_append, List.length_cons, List.length_dropLast]
        omega
      have hprefix : pat <+: c :: (a ++ pat.dropLast) :=
        List.prefix_of_prefix_length_le (List.isPrefixOf_iff_prefix.mp hpat) hlong hlen
      exact h hprefix.isInfix

/-- `str::replace`, for a nonempty pattern. -/
def replaceText (pat by' : Text) : Nat → Text → Text
  | 0, s => s
  | fuel + 1, s =>
    match findText pat s with
    | none => s
    | some i => s.take i ++ by' ++ replaceText pat by' fuel (s.drop (i + pat.length))

def slice (s : Text) (start stop : Nat) : Text := (s.drop start).take (stop - start)

/-! ## Tags -/

/-- The local name of an opening tag, from what stands between its brackets. -/
def localName (inner : Text) : Text :=
  let name := (trimStart inner).takeWhile fun c => !isWhite c
  lastPiece (name.reverse.dropWhile (· = '/')).reverse

def findOpenFrom (xml tag : Text) : Nat → Nat → Option (Nat × Nat)
  | 0, _ => none
  | fuel + 1, pos =>
    match findText ['<'] (xml.drop pos) with
    | none => none
    | some lt =>
      let start := pos + lt
      match if xml[start + 1]? = some '/' then none else findText ['>'] (xml.drop start) with
      | none => findOpenFrom xml tag fuel (start + 1)
      | some gt =>
        if localName (slice xml (start + 1) (start + gt)) = tag then some (start, start + gt + 1)
        else findOpenFrom xml tag fuel (start + 1)

/-- The start of the next opening tag with this local name, and the place after it. -/
def findOpen (xml tag : Text) : Option (Nat × Nat) := findOpenFrom xml tag (xml.length + 1) 0

def findCloseFrom (xml tag : Text) : Nat → Nat → Option (Nat × Nat)
  | 0, _ => none
  | fuel + 1, pos =>
    match findText ['<', '/'] (xml.drop pos) with
    | none => none
    | some lt =>
      let start := pos + lt
      match findText ['>'] (xml.drop start) with
      | none => findCloseFrom xml tag fuel (start + 2)
      | some gt =>
        if lastPiece (slice xml (start + 2) (start + gt)) = tag then some (start, start + gt + 1)
        else findCloseFrom xml tag fuel (start + 2)

/-- The start of the next closing tag with this local name, and the place after it. -/
def findClose (xml tag : Text) : Option (Nat × Nat) := findCloseFrom xml tag (xml.length + 1) 0

/-- The loop of `element`, from `pos` at nesting `depth`. -/
def elementEnd (xml tag : Text) : Nat → Nat → Nat → Option Nat
  | 0, _, _ => none
  | fuel + 1, depth, pos =>
    match findClose (xml.drop pos) tag, findOpen (xml.drop pos) tag with
    | some (cs, ce), some (os, _) =>
      if cs < os then
        if depth = 1 then some (pos + ce) else elementEnd xml tag fuel (depth - 1) (pos + ce)
      else elementEnd xml tag fuel (depth + 1) (pos + os + 1)
    | some (_, ce), none =>
      if depth = 1 then some (pos + ce) else elementEnd xml tag fuel (depth - 1) (pos + ce)
    | none, some (os, _) => elementEnd xml tag fuel (depth + 1) (pos + os + 1)
    | none, none => none

/-- The text of the first complete element, and what follows it. -/
def element (xml tag : Text) : Option (Text × Text) :=
  match findOpen xml tag with
  | none => none
  | some (start, afterOpen) =>
    (elementEnd xml tag (xml.length + 1) 1 afterOpen).map fun stop =>
      (slice xml start stop, xml.drop stop)

def responseBlocksFrom : Nat → Text → List Text
  | 0, _ => []
  | fuel + 1, xml =>
    match element xml "response".toList with
    | none => []
    | some (block, rest) => block :: responseBlocksFrom fuel rest

/-- Every complete `response` element. -/
def responseBlocks (xml : Text) : List Text := responseBlocksFrom (xml.length + 1) xml

/-! ## Contents -/

def cdataOpen : Text := "<![CDATA[".toList
def cdataClose : Text := "]]>".toList

/-- `strip_tags`: CDATA sections pass through. -/
def stripTagsFrom : Nat → Text → Text
  | 0, _ => []
  | _, [] => []
  | fuel + 1, '<' :: s =>
    if cdataOpen.isPrefixOf ('<' :: s) then
      let content := ('<' :: s).drop cdataOpen.length
      match findText cdataClose content with
      | none => content
      | some stop => content.take stop ++ stripTagsFrom fuel (content.drop (stop + 3))
    else
      match findText ['>'] ('<' :: s) with
      | none => []
      | some gt => stripTagsFrom fuel (('<' :: s).drop (gt + 1))
  | fuel + 1, c :: s =>
    let run := (c :: s).takeWhile (· ≠ '<')
    run ++ stripTagsFrom fuel ((c :: s).drop run.length)

def stripTags (s : Text) : Text := stripTagsFrom (s.length + 1) s

def unescapeXml (s : Text) : Text :=
  let entities : List (String × String) :=
    [("&lt;", "<"), ("&gt;", ">"), ("&quot;", "\""), ("&#39;", "'"), ("&apos;", "'"), ("&amp;", "&")]
  entities.foldl (fun s e => replaceText e.1.toList e.2.toList (s.length + 1) s) s

/-- Text content of the first element, if there is any. -/
def tagText (xml : Text) (tag : String) : Option Text :=
  match element xml tag.toList with
  | none => none
  | some (block, _) =>
    match findOpen block tag.toList, findClose block tag.toList with
    | some (_, afterOpen), some (close, _) =>
      let text := trimText (unescapeXml (stripTags (slice block afterOpen close)))
      if text = [] then none else some text
    | _, _ => none

example : tagText "<D:response><D:href> /ab/ </D:href></D:response>".toList "href" =
    some "/ab/".toList := by decide +kernel

end Lyra
