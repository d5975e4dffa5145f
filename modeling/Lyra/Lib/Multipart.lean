import Lyra.Lib.Lines
import Mathlib.Data.List.Infix

/-!
# Multipart bodies

How a body is read as RFC 2046 says, by its lines: a part stands between two lines that begin
with the delimiter, and the line break before a delimiter belongs to the delimiter.  Headers are
not folded and spelled as in `Content-Type: `.

* `readParts_two`: two parts are found again;
* `startsLines_flatten`: delimiters start lines in a text put together from such texts.
-/

namespace Lyra.Lib

/-! ## Lines -/

/-- The pieces between the CRLFs. -/
def splitCrlf : List Char → List (List Char)
  | [] => [[]]
  | '\r' :: '\n' :: s => [] :: splitCrlf s
  | c :: s =>
    match splitCrlf s with
    | [] => [[c]]
    | l :: ls => (c :: l) :: ls

theorem splitCrlf_crlf (s : List Char) : splitCrlf ('\r' :: '\n' :: s) = [] :: splitCrlf s := by
  rw [splitCrlf]

theorem splitCrlf_cons {c : Char} {s : List Char} (h : ∀ r, c :: s ≠ '\r' :: '\n' :: r) :
    splitCrlf (c :: s) = (c :: (splitCrlf s).headD []) :: (splitCrlf s).tail := by
  rw [splitCrlf.eq_3 c s fun r hc hs => h r (by rw [hc, hs])]
  cases splitCrlf s with
  | nil => rfl
  | cons l ls => rfl

theorem splitCrlf_ne_nil (s : List Char) : splitCrlf s ≠ [] := by
  fun_cases splitCrlf s <;> simp_all

theorem crlf_cases (s : List Char) : s = [] ∨ (∃ r, s = '\r' :: '\n' :: r) ∨
    ∃ c r, s = c :: r ∧ ∀ r', c :: r ≠ '\r' :: '\n' :: r' := by
  cases s with
  | nil => exact .inl rfl
  | cons c r =>
    by_cases h : ∃ r', c :: r = '\r' :: '\n' :: r'
    · exact .inr (.inl h)
    · exact .inr (.inr ⟨c, r, rfl, fun r' hr => h ⟨r', hr⟩⟩)

theorem splitCrlf_append (a b : List Char) :
    splitCrlf (a ++ '\r' :: '\n' :: b) = splitCrlf a ++ splitCrlf b := by
  induction hn : a.length using Nat.strongRecOn generalizing a with
  | ind n ih =>
    rcases crlf_cases a with rfl | ⟨r, rfl⟩ | ⟨c, r, rfl, hc⟩
    · rw [List.nil_append, splitCrlf_crlf]
      rfl
    · have hr := ih r.length (by rw [← hn]; simp only [List.length_cons]; omega) r rfl
      rw [List.cons_append, List.cons_append, splitCrlf_crlf, splitCrlf_crlf, hr]
      rfl
    · have hr := ih r.length (by rw [← hn]; simp only [List.length_cons]; omega) r rfl
      have hc' : ∀ r', c :: (r ++ '\r' :: '\n' :: b) ≠ '\r' :: '\n' :: r' := by
        intro r' h
        cases r with
        | nil => cases h
        | cons x r =>
          obtain ⟨rfl, htail⟩ := List.cons.inj h
          obtain ⟨rfl, -⟩ := List.cons.inj htail
          exact hc r rfl
      rw [List.cons_append, splitCrlf_cons hc', splitCrlf_cons hc, hr]
      cases hs : splitCrlf r with
      | nil => exact absurd hs (splitCrlf_ne_nil r)
      | cons l ls => rfl

theorem splitCrlf_of_not_mem {s : List Char} (h : '\n' ∉ s) : splitCrlf s = [s] := by
  induction s with
  | nil => rfl
  | cons c s ih =>
    have hc : ∀ r, c :: s ≠ '\r' :: '\n' :: r := by
      intro r hr
      rw [hr] at h
      exact h (List.mem_cons_of_mem _ List.mem_cons_self)
    rw [splitCrlf_cons hc, ih fun hs => h (List.mem_cons_of_mem _ hs)]
    rfl

theorem joinLines_cons_cons (l l' : List Char) (ls : List (List Char)) :
    joinLines (l :: l' :: ls) = l ++ '\r' :: '\n' :: joinLines (l' :: ls) := by
  simp [joinLines, List.intercalate]

theorem joinLines_splitCrlf (s : List Char) : joinLines (splitCrlf s) = s := by
  induction hn : s.length using Nat.strongRecOn generalizing s with
  | ind n ih =>
    rcases crlf_cases s with rfl | ⟨r, rfl⟩ | ⟨c, r, rfl, hc⟩
    · rfl
    · have hr := ih r.length (by rw [← hn]; simp only [List.length_cons]; omega) r rfl
      rw [splitCrlf_crlf]
      cases hs : splitCrlf r with
      | nil => exact absurd hs (splitCrlf_ne_nil r)
      | cons l ls =>
        rw [joinLines_cons_cons, ← hs, hr]
        rfl
    · have hr := ih r.length (by rw [← hn]; simp only [List.length_cons]; omega) r rfl
      rw [splitCrlf_cons hc]
      cases hs : splitCrlf r with
      | nil => exact absurd hs (splitCrlf_ne_nil r)
      | cons l ls =>
        rw [hs] at hr
        cases ls with
        | nil =>
          rw [joinLines_single] at hr
          rw [← hr]
          exact joinLines_single _
        | cons l' ls =>
          rw [joinLines_cons_cons] at hr
          rw [List.headD_cons, List.tail_cons, joinLines_cons_cons, ← hr]
          rfl

theorem infix_of_mem_splitCrlf {s l : List Char} (h : l ∈ splitCrlf s) : l <:+: s := by
  obtain ⟨before, after, hsplit⟩ := List.append_of_mem h
  rw [← joinLines_splitCrlf s, hsplit]
  clear h hsplit
  induction before with
  | nil =>
    cases after with
    | nil =>
      rw [List.nil_append, joinLines_single]
    | cons l' after =>
      rw [List.nil_append, joinLines_cons_cons]
      exact (List.prefix_append _ _).isInfix
  | cons b before ih =>
    obtain ⟨l', rest, hrest⟩ : ∃ l' rest, before ++ l :: after = l' :: rest := by
      cases before with
      | nil => exact ⟨_, _, rfl⟩
      | cons x xs => exact ⟨_, _, rfl⟩
    rw [List.cons_append, hrest, joinLines_cons_cons, ← hrest]
    have hlast : joinLines (before ++ l :: after) <:+:
        b ++ '\r' :: '\n' :: joinLines (before ++ l :: after) :=
      ⟨b ++ ['\r', '\n'], [], by simp⟩
    exact ih.trans hlast

/-! ## Parts -/

/-- What a delimiter line begins with. -/
def dashBoundary (b : List Char) : List Char := '-' :: '-' :: b

def closeBoundary (b : List Char) : List Char := dashBoundary b ++ ['-', '-']

/-- The parts after a delimiter; `cur` are the lines of the part so far. -/
def partsFrom (b : List Char) : List (List Char) → List (List Char) → List (List (List Char))
  | cur, [] => [cur]
  | cur, l :: ls =>
    if (closeBoundary b).isPrefixOf l then [cur]
    else if (dashBoundary b).isPrefixOf l then cur :: partsFrom b [] ls
    else partsFrom b (cur ++ [l]) ls

/-- The parts of a body, each by its lines. -/
def readParts (b : List Char) : List (List Char) → List (List (List Char))
  | [] => []
  | l :: ls =>
    if (closeBoundary b).isPrefixOf l then []
    else if (dashBoundary b).isPrefixOf l then partsFrom b [] ls
    else readParts b ls

section Parts

variable {b : List Char}

theorem close_of_no_dash {l : List Char} (h : (dashBoundary b).isPrefixOf l = false) :
    (closeBoundary b).isPrefixOf l = false := by
  rw [← Bool.not_eq_true, List.isPrefixOf_iff_prefix] at h ⊢
  intro hclose
  exact h ((List.prefix_append _ _).trans hclose)

theorem isPrefixOf_self (l : List Char) : l.isPrefixOf l = true :=
  List.isPrefixOf_iff_prefix.mpr List.prefix_rfl

theorem close_dash : (closeBoundary b).isPrefixOf (dashBoundary b) = false := by
  rw [← Bool.not_eq_true, List.isPrefixOf_iff_prefix]
  intro h
  have hlen := h.length_le
  unfold closeBoundary at hlen
  rw [List.length_append, List.length_cons, List.length_singleton] at hlen
  omega

theorem readParts_skip {pre : List (List Char)}
    (hpre : ∀ l ∈ pre, (dashBoundary b).isPrefixOf l = false) (ls : List (List Char)) :
    readParts b (pre ++ ls) = readParts b ls := by
  induction pre with
  | nil => rfl
  | cons l pre ih =>
    have hl := hpre l List.mem_cons_self
    rw [List.cons_append, readParts, close_of_no_dash hl, hl]
    exact ih fun l hl => hpre l (List.mem_cons_of_mem _ hl)

theorem partsFrom_skip {part : List (List Char)}
    (hpart : ∀ l ∈ part, (dashBoundary b).isPrefixOf l = false) (cur ls : List (List Char)) :
    partsFrom b cur (part ++ ls) = partsFrom b (cur ++ part) ls := by
  induction part generalizing cur with
  | nil => rw [List.nil_append, List.append_nil]
  | cons l part ih =>
    have hl := hpart l List.mem_cons_self
    rw [List.cons_append, partsFrom, close_of_no_dash hl, hl]
    have hrest := ih (fun l hl => hpart l (List.mem_cons_of_mem _ hl)) (cur ++ [l])
    rw [List.append_assoc] at hrest
    exact hrest

/-- A body of two parts, none of whose lines begins with the delimiter. -/
theorem readParts_two {pre p q : List (List Char)}
    (hpre : ∀ l ∈ pre, (dashBoundary b).isPrefixOf l = false)
    (hp : ∀ l ∈ p, (dashBoundary b).isPrefixOf l = false)
    (hq : ∀ l ∈ q, (dashBoundary b).isPrefixOf l = false) (post : List (List Char)) :
    readParts b (pre ++ dashBoundary b :: (p ++ dashBoundary b :: (q ++ closeBoundary b :: post))) =
      [p, q] := by
  rw [readParts_skip hpre, readParts, close_dash, isPrefixOf_self]
  show partsFrom b [] _ = _
  rw [partsFrom_skip hp, List.nil_append, partsFrom, close_dash, isPrefixOf_self]
  show p :: partsFrom b [] _ = _
  rw [partsFrom_skip hq, List.nil_append, partsFrom, isPrefixOf_self]
  rfl

end Parts

/-! ## Leaves -/

/-- A part that has no parts: its type, the name of its file, and its body. -/
structure Leaf where
  contentType : List Char
  filename : Option (List Char)
  body : List Char
  deriving DecidableEq, Repr

/-- What stands behind the first occurrence of a pattern. -/
def behind (pat : List Char) : List Char → Option (List Char)
  | [] => if pat = [] then some [] else none
  | c :: s => if pat.isPrefixOf (c :: s) then some ((c :: s).drop pat.length) else behind pat s

/-- The quoted value of a parameter. -/
def quoted (name : List Char) (s : List Char) : Option (List Char) :=
  (behind (name ++ ['=', '"']) s).map (·.takeWhile (· ≠ '"'))

/-- The boundary that a multipart type names. -/
def boundaryOf (contentType : List Char) : Option (List Char) :=
  if "multipart/".toList.isPrefixOf contentType then quoted "boundary".toList contentType else none

def typeField : List Char := "Content-Type: ".toList

/-- The type that the headers name. -/
def contentTypeOf (headers : List (List Char)) : List Char :=
  (headers.findSome? fun h =>
    if typeField.isPrefixOf h then some (h.drop typeField.length) else none).getD
      "text/plain".toList

/-- The leaves of an entity of these headers and lines, to a depth. -/
def readLeaves : Nat → List (List Char) → List (List Char) → List Leaf
  | 0, _, _ => []
  | depth + 1, headers, ls =>
    match boundaryOf (contentTypeOf headers) with
    | none =>
      [⟨contentTypeOf headers, headers.findSome? (quoted "filename".toList), joinLines ls⟩]
    | some b =>
      (readParts b ls).flatMap fun part =>
        readLeaves depth (part.takeWhile (· ≠ [])) ((part.dropWhile (· ≠ [])).drop 1)

section Leaves

variable {headers : List (List Char)}

theorem readLeaves_leaf (h : boundaryOf (contentTypeOf headers) = none) (depth : Nat)
    (ls : List (List Char)) :
    readLeaves (depth + 1) headers ls =
      [⟨contentTypeOf headers, headers.findSome? (quoted "filename".toList), joinLines ls⟩] := by
  rw [readLeaves, h]

theorem readLeaves_multipart {b : List Char} (h : boundaryOf (contentTypeOf headers) = some b)
    (depth : Nat) (ls : List (List Char)) :
    readLeaves (depth + 1) headers ls = (readParts b ls).flatMap fun part =>
      readLeaves depth (part.takeWhile (· ≠ [])) ((part.dropWhile (· ≠ [])).drop 1) := by
  rw [readLeaves, h]

/-- Behind a character that is not before it, a pattern is found. -/
theorem behind_append {c : Char} {pat before : List Char} (h : c ∉ before) (s : List Char) :
    behind (c :: pat) (before ++ (c :: pat ++ s)) = some s := by
  induction before with
  | nil =>
    have hstarts : (c :: pat).isPrefixOf (c :: (pat ++ s)) = true :=
      List.isPrefixOf_iff_prefix.mpr (List.prefix_append (c :: pat) s)
    rw [List.nil_append, List.cons_append, behind, if_pos hstarts, ← List.cons_append,
      List.drop_left]
  | cons d before ih =>
    have hd : d ≠ c := by
      rintro rfl
      exact h List.mem_cons_self
    have hstarts : ¬ (c :: pat).isPrefixOf (d :: (before ++ (c :: pat ++ s))) = true := by
      rw [List.isPrefixOf_iff_prefix, List.cons_prefix_cons]
      rintro ⟨rfl, -⟩
      exact hd rfl
    rw [List.cons_append, behind, if_neg hstarts]
    exact ih fun hmem => h (List.mem_cons_of_mem _ hmem)

theorem contentTypeOf_cons (contentType : List Char) :
    contentTypeOf ((typeField ++ contentType) :: headers) = contentType := by
  have hstarts : typeField.isPrefixOf (typeField ++ contentType) = true :=
    List.isPrefixOf_iff_prefix.mpr (List.prefix_append _ _)
  unfold contentTypeOf
  rw [List.findSome?_cons, if_pos hstarts, List.drop_left]
  rfl

theorem headers_append (h : ∀ l ∈ headers, l ≠ []) (ls : List (List Char)) :
    (headers ++ [] :: ls).takeWhile (· ≠ []) = headers ∧
      ((headers ++ [] :: ls).dropWhile (· ≠ [])).drop 1 = ls := by
  have hall : ∀ l ∈ headers, decide (l ≠ []) = true := fun l hl => decide_eq_true (h l hl)
  rw [List.takeWhile_append_of_pos hall, List.dropWhile_append_of_pos hall]
  simp

end Leaves

/-! ## Delimiters -/

/-- Every occurrence starts a line. -/
def StartsLines (p t : List Char) : Prop :=
  ∀ pre post, t = pre ++ p ++ post → pre = [] ∨ ['\r', '\n'] <:+ pre

section StartsLines

variable {p a t : List Char}

theorem startsLines_of_absent (h : ¬ p <:+: t) : StartsLines p t := by
  intro pre post heq
  exact absurd ⟨pre, post, heq.symm⟩ h

/-- Behind a line break, a text goes on as if it began there. -/
theorem startsLines_append (hp : '\n' ∉ p) (ha : StartsLines p a) (hend : ['\r', '\n'] <:+ a)
    (ht : StartsLines p t) : StartsLines p (a ++ t) := by
  intro pre post heq
  rw [List.append_assoc] at heq
  rcases List.append_eq_append_iff.mp heq with ⟨more, rfl, hmore⟩ | ⟨more, rfl, hmore⟩
  · -- the occurrence is in the second text
    rcases ht more post (by rw [hmore, List.append_assoc]) with rfl | hsuffix
    · right
      rw [List.append_nil]
      exact hend
    · exact .inr (hsuffix.trans (List.suffix_append _ _))
  · rcases List.append_eq_append_iff.mp hmore with ⟨rest, hsplit, -⟩ | ⟨rest, hsplit, -⟩
    · exact ha pre rest (by rw [hsplit, List.append_assoc])
    · -- it would go over the line break
      right
      obtain rfl | hne := eq_or_ne more []
      · rwa [List.append_nil] at hend
      · exfalso
        obtain ⟨front, hfront⟩ := hend
        have hlast : (pre ++ more).getLast? = some '\n' := by
          rw [← hfront]
          simp
        rw [List.getLast?_append_of_ne_nil _ hne] at hlast
        apply hp
        rw [hsplit]
        exact List.mem_append_left _ (List.mem_of_getLast? hlast)

theorem startsLines_nil : StartsLines p [] := by
  intro pre post heq
  left
  exact (List.append_eq_nil_iff.mp (List.append_eq_nil_iff.mp heq.symm).1).1

theorem startsLines_flatten (hp : '\n' ∉ p) {ts : List (List Char)}
    (h : ∀ t ∈ ts, StartsLines p t ∧ ['\r', '\n'] <:+ t) : StartsLines p ts.flatten := by
  induction ts with
  | nil => exact startsLines_nil
  | cons t ts ih =>
    obtain ⟨ht, hend⟩ := h t List.mem_cons_self
    rw [List.flatten_cons]
    exact startsLines_append hp ht hend (ih fun t ht => h t (List.mem_cons_of_mem _ ht))

end StartsLines

end Lyra.Lib
