import Lyra.Frontend.Conversation
import Lyra.Lib.Trim

/-!
# The base of a subject

`baseSubject` of `conversation.ts` writes each run of spaces as one, trims the text and strips a
reply or forward prefix while there is one.  What the expression recognises is described on its
own, as a text: spaces, a word, spaces, a colon and spaces.

* `replyPrefix_eq_some_iff`: the texts the expression strips;
* `baseSubject_of_prefix`: a prefix before a subject makes no difference;
* `baseSubject_normal`: the loop ends, leaves no prefix and removes only prefixes.
-/

namespace Lyra.Conversation

open Lyra.Lib

/-! ## Prefixes -/

def replyWords : List Text :=
  ["re".toList, "fw".toList, "fwd".toList, "答复".toList, "回复".toList, "转发".toList]

def IsColon (c : Char) : Prop := c = ':' ∨ c = '：'

/-- One of the words in any case, a colon, and spaces around both. -/
def IsReplyPrefix (p : Text) : Prop :=
  ∃ before word gap c after, p = before ++ (word ++ (gap ++ c :: after)) ∧
    (∀ x ∈ before, isSpace x = true) ∧ word.map Char.toLower ∈ replyWords ∧
    (∀ x ∈ gap, isSpace x = true) ∧ IsColon c ∧ ∀ x ∈ after, isSpace x = true

/-- The subject before prefixes are stripped. -/
def spaced (subject : Text) : Text := trim (collapseSpaces false subject)

theorem trim_eq (s : Text) : trim s = (s.dropWhile isSpace).rdropWhile isSpace := rfl

theorem baseSubject_eq (subject : Text) :
    baseSubject subject = stripReplies (spaced subject).length (spaced subject) := rfl

theorem toLower_of_isSpace {c : Char} (hc : isSpace c = true) : c.toLower = c := by
  have hupper : ¬c.isUpper = true := by
    intro hup
    have hrange : 65 ≤ c.toNat ∧ c.toNat ≤ 90 := by
      have hval : c.val ≥ 'A'.val ∧ c.val ≤ 'Z'.val := of_decide_eq_true hup
      simpa [UInt32.le_iff_toNat_le] using hval
    have hother : ∀ d : Char, c = d → 65 ≤ d.toNat ∧ d.toNat ≤ 90 := by
      rintro d rfl
      exact hrange
    simp only [isSpace, List.mem_cons, List.not_mem_nil, or_false, Bool.or_eq_true,
      decide_eq_true_eq, Bool.and_eq_true] at hc
    rcases hc with hc | ⟨hlow, -⟩
    · rcases hc with h | h | h | h | h | h | h | h | h | h | h | h | h | h <;>
        exact absurd (hother _ h) (by decide)
    · have hlow' : 8192 ≤ c.toNat := hlow
      omega
  exact dif_neg fun h => hupper (decide_eq_true h)

/-- A word of the list starts with no space and no colon, and holds none. -/
theorem replyWords_plain : ∀ w ∈ replyWords, w ≠ [] ∧ ∀ x ∈ w, isSpace x = false ∧ ¬IsColon x := by
  have hall : ∀ w ∈ replyWords, w ≠ [] ∧ w.all fun x =>
      !isSpace x && (x ≠ ':' && x ≠ '：') := by decide +kernel
  intro w hw
  refine ⟨(hall w hw).1, ?_⟩
  intro x hx
  have := List.all_eq_true.mp (hall w hw).2 x hx
  simp only [ne_eq, decide_not, Bool.and_eq_true, Bool.not_eq_eq_eq_not, Bool.not_true,
    decide_eq_false_iff_not] at this
  exact ⟨this.1, fun h => h.elim this.2.1 this.2.2⟩

theorem isSpace_colon {c : Char} (hc : IsColon c) : isSpace c = false := by
  rcases hc with rfl | rfl <;> rfl

/-- A word in any case is as plain as the word. -/
theorem plain_of_lower {word : Text} (hword : word.map Char.toLower ∈ replyWords) :
    word ≠ [] ∧ ∀ x ∈ word, isSpace x = false ∧ ¬IsColon x := by
  obtain ⟨hne, hplain⟩ := replyWords_plain _ hword
  refine ⟨fun h => hne (by rw [h]; rfl), ?_⟩
  intro x hx
  have hlower := hplain _ (List.mem_map_of_mem hx)
  constructor
  · cases hspace : isSpace x with
    | false => rfl
    | true =>
      rw [toLower_of_isSpace hspace, hspace] at hlower
      exact absurd hlower.1 (by decide)
  · intro hcolon
    have hsame : x.toLower = x := by rcases hcolon with rfl | rfl <;> rfl
    rw [hsame] at hlower
    exact hlower.2 hcolon

theorem dropWord_eq_some_iff {word s rest : Text} :
    dropWord word s = some rest ↔ ∃ u, s = u ++ rest ∧ u.map Char.toLower = word := by
  induction word generalizing s with
  | nil =>
    rw [dropWord]
    constructor
    · rintro ⟨⟩
      exact ⟨[], rfl, rfl⟩
    · rintro ⟨u, rfl, hu⟩
      rw [List.map_eq_nil_iff.mp hu]
      rfl
  | cons w word ih =>
    cases s with
    | nil =>
      rw [dropWord]
      constructor
      · intro h
        cases h
      rintro ⟨u, hs, hu⟩
      cases u with
      | nil => cases hu
      | cons x u => cases hs
    | cons c s =>
      rw [dropWord]
      constructor
      · intro h
        split at h
        · rename_i hc
          obtain ⟨u, rfl, rfl⟩ := ih.mp h
          exact ⟨c :: u, rfl, by rw [List.map_cons, hc]⟩
        · cases h
      · rintro ⟨u, hs, hu⟩
        cases u with
        | nil => cases hu
        | cons x u =>
          obtain ⟨rfl, rfl⟩ := List.cons.inj hs
          obtain ⟨hc, htail⟩ := List.cons.inj hu
          rw [if_pos hc]
          exact ih.mpr ⟨u, rfl, htail⟩

/-- What one word of the expression leaves. -/
theorem bind_dropWord_eq_some_iff {word s rest : Text} :
    ((dropWord word s).bind fun rest =>
      match rest.dropWhile isSpace with
      | c :: rest => if c = ':' ∨ c = '：' then some (rest.dropWhile isSpace) else none
      | [] => none) = some rest ↔
    ∃ u gap c t, s = u ++ (gap ++ c :: t) ∧ u.map Char.toLower = word ∧
      (∀ x ∈ gap, isSpace x = true) ∧ IsColon c ∧ rest = t.dropWhile isSpace := by
  rw [Option.bind_eq_some_iff]
  constructor
  · rintro ⟨behind, hword, h⟩
    obtain ⟨u, rfl, hu⟩ := dropWord_eq_some_iff.mp hword
    split at h
    case h_1 c t heq =>
      split at h
      case isTrue hc =>
        cases h
        refine ⟨u, behind.takeWhile isSpace, c, t, ?_, hu, fun x hx => ?_, hc, rfl⟩
        · rw [← heq, List.takeWhile_append_dropWhile]
        · exact List.mem_takeWhile_imp hx
      case isFalse => cases h
    case h_2 => cases h
  · rintro ⟨u, gap, c, t, rfl, hu, hgap, hc, rfl⟩
    refine ⟨gap ++ c :: t, dropWord_eq_some_iff.mpr ⟨u, rfl, hu⟩, ?_⟩
    rw [dropWhile_append_cons_of_forall hgap (isSpace_colon hc)]
    exact if_pos hc

/-- The first colon is the one behind the word. -/
theorem dropWhile_notColon {word gap t : Text} {c : Char}
    (hword : word.map Char.toLower ∈ replyWords) (hgap : ∀ x ∈ gap, isSpace x = true)
    (hc : IsColon c) :
    (word ++ (gap ++ c :: t)).dropWhile (fun x => !(x = ':' || x = '：')) = c :: t := by
  rw [← List.append_assoc]
  refine dropWhile_append_cons_of_forall ?_ ?_ t
  · intro x hx
    have hnot : ¬IsColon x := by
      rcases List.mem_append.mp hx with hx | hx
      · exact ((plain_of_lower hword).2 x hx).2
      · intro h
        have := hgap x hx
        rw [isSpace_colon h] at this
        exact absurd this (by decide)
    simpa [IsColon] using hnot
  · rcases hc with rfl | rfl <;> rfl

/-- The expression strips a word, a colon and the spaces around it. -/
theorem replyPrefix_eq_some_iff {s rest : Text} :
    replyPrefix s = some rest ↔ ∃ word gap c t, s = word ++ (gap ++ c :: t) ∧
      word.map Char.toLower ∈ replyWords ∧ (∀ x ∈ gap, isSpace x = true) ∧ IsColon c ∧
      rest = t.dropWhile isSpace := by
  constructor
  · intro h
    obtain ⟨w, hw, h⟩ := List.exists_of_findSome?_eq_some h
    obtain ⟨u, gap, c, t, hs, rfl, hgap, hc, hrest⟩ := bind_dropWord_eq_some_iff.mp h
    exact ⟨u, gap, c, t, hs, hw, hgap, hc, hrest⟩
  · rintro ⟨word, gap, c, t, hs, hword, hgap, hc, hrest⟩
    cases hfound : replyPrefix s with
    | none =>
      have hnone := List.findSome?_eq_none_iff.mp hfound _ hword
      have hsome := bind_dropWord_eq_some_iff.mpr ⟨word, gap, c, t, hs, rfl, hgap, hc, hrest⟩
      cases hnone.symm.trans hsome
    | some found =>
      -- another word of the list stands before the same colon
      obtain ⟨w, hw, h⟩ := List.exists_of_findSome?_eq_some hfound
      obtain ⟨u, gap', c', t', hs', rfl, hgap', hc', rfl⟩ := bind_dropWord_eq_some_iff.mp h
      have hone := dropWhile_notColon (t := t) hword hgap hc
      rw [← hs, hs', dropWhile_notColon hw hgap' hc'] at hone
      rw [hrest, (List.cons.inj hone).2]

/-! ## Runs of spaces -/

/-- Every space is a blank, and none follows another; `inRun` after a space. -/
def Collapsed : Bool → Text → Prop
  | _, [] => True
  | inRun, c :: s =>
    if isSpace c = true then inRun = false ∧ c = ' ' ∧ Collapsed true s else Collapsed false s

section Spaces

variable {b : Bool} {s : Text} {c : Char}

theorem collapsed_collapseSpaces (b : Bool) (s : Text) : Collapsed b (collapseSpaces b s) := by
  induction s generalizing b with
  | nil => exact trivial
  | cons c s ih =>
    rw [collapseSpaces]
    split
    case isTrue hc =>
      split
      case isTrue hb => exact hb ▸ ih true
      case isFalse hb => exact ⟨by simpa using hb, rfl, ih true⟩
    case isFalse hc =>
      rw [Collapsed, if_neg hc]
      exact ih false

theorem collapseSpaces_of_collapsed (h : Collapsed b s) : collapseSpaces b s = s := by
  induction s generalizing b with
  | nil => rfl
  | cons c s ih =>
    rw [Collapsed] at h
    rw [collapseSpaces]
    split
    case isTrue hc =>
      rw [if_pos hc] at h
      obtain ⟨rfl, rfl, h⟩ := h
      rw [if_neg Bool.false_ne_true, ih h]
    case isFalse hc =>
      rw [if_neg hc] at h
      rw [ih h]

theorem Collapsed.fresh (h : Collapsed b s) : Collapsed false s := by
  cases s with
  | nil => exact trivial
  | cons c s =>
    rw [Collapsed] at h ⊢
    split
    case isTrue hc =>
      rw [if_pos hc] at h
      exact ⟨rfl, h.2⟩
    case isFalse hc =>
      rw [if_neg hc] at h
      exact h

theorem Collapsed.tail (h : Collapsed b (c :: s)) : Collapsed false s := by
  rw [Collapsed] at h
  split at h
  case isTrue => exact h.2.2.fresh
  case isFalse => exact h

theorem Collapsed.suffix {t : Text} (h : Collapsed false s) (hsuffix : t <:+ s) :
    Collapsed false t := by
  obtain ⟨front, rfl⟩ := hsuffix
  induction front with
  | nil => exact h
  | cons c front ih => exact ih h.tail

theorem Collapsed.front {t : Text} (h : Collapsed b (s ++ t)) : Collapsed b s := by
  induction s generalizing b with
  | nil => exact trivial
  | cons c s ih =>
    rw [List.cons_append, Collapsed] at h
    rw [Collapsed]
    split
    case isTrue hc =>
      rw [if_pos hc] at h
      exact ⟨h.1, h.2.1, ih h.2.2⟩
    case isFalse hc =>
      rw [if_neg hc] at h
      exact ih h

theorem collapsed_trim (h : Collapsed false s) : Collapsed false (trim s) := by
  obtain ⟨back, hback⟩ := List.rdropWhile_prefix isSpace (s.dropWhile isSpace)
  have hdrop := h.suffix (List.dropWhile_suffix isSpace)
  rw [← hback] at hdrop
  exact hdrop.front

theorem dropWhile_collapseSpaces (b : Bool) (s : Text) :
    (collapseSpaces b s).dropWhile isSpace = (collapseSpaces false s).dropWhile isSpace := by
  cases s with
  | nil => rfl
  | cons c s =>
    rw [collapseSpaces, collapseSpaces, if_neg Bool.false_ne_true]
    split
    · split
      · rw [List.dropWhile_cons_of_pos rfl]
      · rfl
    · rfl

/-- Spaces in front of a text are trimmed away with the run they become. -/
theorem dropWhile_collapseSpaces_append {front : Text} (hfront : ∀ x ∈ front, isSpace x = true)
    (b : Bool) (s : Text) :
    (collapseSpaces b (front ++ s)).dropWhile isSpace =
      (collapseSpaces false s).dropWhile isSpace := by
  induction front generalizing b with
  | nil => exact dropWhile_collapseSpaces b s
  | cons c front ih =>
    have hrest := ih (fun x hx => hfront x (List.mem_cons_of_mem c hx)) true
    rw [List.cons_append, collapseSpaces, if_pos (hfront c List.mem_cons_self)]
    split
    · exact hrest
    · rw [List.dropWhile_cons_of_pos rfl]
      exact hrest

theorem collapseSpaces_word {word : Text} (hword : ∀ x ∈ word, isSpace x = false) (s : Text) :
    collapseSpaces false (word ++ s) = word ++ collapseSpaces false s := by
  induction word with
  | nil => rfl
  | cons c word ih =>
    have hc := hword c List.mem_cons_self
    rw [List.cons_append, collapseSpaces, if_neg (by rw [hc]; exact Bool.false_ne_true),
      ih fun x hx => hword x (List.mem_cons_of_mem c hx), List.cons_append]

theorem collapseSpaces_gap {gap : Text} (hgap : ∀ x ∈ gap, isSpace x = true)
    (hc : isSpace c = false) (b : Bool) (s : Text) :
    ∃ gap', (∀ x ∈ gap', isSpace x = true) ∧
      collapseSpaces b (gap ++ c :: s) = gap' ++ c :: collapseSpaces false s := by
  induction gap generalizing b with
  | nil =>
    refine ⟨[], nofun, ?_⟩
    rw [List.nil_append, collapseSpaces, if_neg (by rw [hc]; exact Bool.false_ne_true)]
    rfl
  | cons d gap ih =>
    obtain ⟨gap', hgap', heq⟩ := ih (fun x hx => hgap x (List.mem_cons_of_mem d hx)) true
    rw [List.cons_append, collapseSpaces, if_pos (hgap d List.mem_cons_self), heq]
    split
    · exact ⟨gap', hgap', rfl⟩
    · refine ⟨' ' :: gap', ?_, rfl⟩
      intro x hx
      rcases List.mem_cons.mp hx with rfl | hx
      · rfl
      · exact hgap' x hx

end Spaces

/-! ## The loop -/

theorem trim_trim (s : Text) : trim (trim s) = trim s := by
  simp only [trim_eq]
  rw [dropWhile_rdropWhile, List.dropWhile_idempotent, List.rdropWhile_idempotent]

/-- A text that spacing leaves as it is. -/
structure Tidy (s : Text) : Prop where
  collapsed : Collapsed false s
  trimmed : trim s = s

theorem Tidy.spaced_eq {s : Text} (h : Tidy s) : spaced s = s := by
  rw [spaced, collapseSpaces_of_collapsed h.collapsed, h.trimmed]

theorem tidy_spaced (subject : Text) : Tidy (spaced subject) :=
  ⟨collapsed_trim (collapsed_collapseSpaces false subject), trim_trim _⟩

/-- What a prefix leaves of a tidy text is tidy without more trimming. -/
theorem Tidy.stripped {s rest : Text} (h : Tidy s) (hrest : replyPrefix s = some rest) :
    Tidy rest ∧ ∃ p, IsReplyPrefix p ∧ s = p ++ rest := by
  obtain ⟨word, gap, c, t, rfl, hword, hgap, hc, rfl⟩ := replyPrefix_eq_some_iff.mp hrest
  have hsuffix : t.dropWhile isSpace <:+ word ++ (gap ++ c :: t) := by
    refine (List.dropWhile_suffix isSpace).trans ?_
    exact ⟨word ++ (gap ++ [c]), by simp⟩
  obtain ⟨x, u, hxu⟩ : ∃ x u, word ++ (gap ++ c :: t) = x :: u ∧ isSpace x = false := by
    obtain ⟨hne, hplain⟩ := plain_of_lower hword
    cases word with
    | nil => exact absurd rfl hne
    | cons x word => exact ⟨x, word ++ (gap ++ c :: t), rfl, (hplain x List.mem_cons_self).1⟩
  -- the end of the text has been trimmed
  have hend : (c :: t).rdropWhile isSpace = c :: t := by
    have htrim := h.trimmed
    rw [trim_eq, hxu.1, List.dropWhile_cons_of_neg (by rw [hxu.2]; exact Bool.false_ne_true),
      ← hxu.1, ← List.append_assoc, rdropWhile_append_cons (isSpace_colon hc)] at htrim
    rw [rdropWhile_cons_of_neg (isSpace_colon hc)]
    exact List.append_cancel_left htrim
  rw [rdropWhile_cons_of_neg (isSpace_colon hc), List.cons.injEq] at hend
  refine ⟨⟨h.collapsed.suffix hsuffix, ?_⟩, word ++ (gap ++ c :: t.takeWhile isSpace), ?_, ?_⟩
  · rw [trim_eq, List.dropWhile_idempotent, ← dropWhile_rdropWhile, hend.2]
  · exact ⟨[], word, gap, c, t.takeWhile isSpace, rfl, nofun, hword, hgap, hc,
      fun x hx => List.mem_takeWhile_imp hx⟩
  · simp [List.takeWhile_append_dropWhile]

/-- Rounds enough strip prefixes only, until none is left. -/
theorem stripReplies_spec {n : Nat} {s : Text} (h : Tidy s) (hn : s.length ≤ n) :
    Tidy (stripReplies n s) ∧ (∀ m, s.length ≤ m → stripReplies m s = stripReplies n s) ∧
      ∃ prefixes : List Text, (∀ p ∈ prefixes, IsReplyPrefix p) ∧
        s = prefixes.flatten ++ stripReplies n s := by
  induction n generalizing s with
  | zero =>
    cases List.length_eq_zero_iff.mp (Nat.le_zero.mp hn)
    refine ⟨h, ?_, [], nofun, rfl⟩
    intro m _
    cases m with
    | zero => rfl
    | succ m => rfl
  | succ n ih =>
    rw [stripReplies]
    split
    case h_1 rest hrest =>
      have hlt : rest.length < s.length := length_stripWord hrest
      obtain ⟨htidy, p, hp, hs⟩ := h.stripped hrest
      rw [htidy.trimmed]
      obtain ⟨hleft, hmore, prefixes, hprefixes, hflat⟩ := ih htidy (by omega)
      refine ⟨hleft, ?_, p :: prefixes, ?_, ?_⟩
      · intro m hm
        cases m with
        | zero => omega
        | succ m =>
          rw [stripReplies, hrest]
          show stripReplies m (trim rest) = _
          rw [htidy.trimmed]
          exact hmore m (by omega)
      · intro q hq
        rcases List.mem_cons.mp hq with rfl | hq
        · exact hp
        · exact hprefixes q hq
      · rw [List.flatten_cons, List.append_assoc, ← hflat, hs]
    case h_2 hnone =>
      refine ⟨h, ?_, [], nofun, rfl⟩
      intro m _
      cases m with
      | zero => rfl
      | succ m => rw [stripReplies, hnone]

/-- A prefix before a subject becomes a prefix of the spaced text. -/
theorem replyPrefix_spaced {p : Text} (hp : IsReplyPrefix p) (subject : Text) :
    ∃ rest, replyPrefix (spaced (p ++ subject)) = some rest ∧ trim rest = spaced subject := by
  obtain ⟨before, word, gap, c, after, rfl, hbefore, hword, hgap, hc, hafter⟩ := hp
  obtain ⟨hne, hplain⟩ := plain_of_lower hword
  obtain ⟨gap', hgap', hcollapse⟩ :=
    collapseSpaces_gap hgap (isSpace_colon hc) false (after ++ subject)
  let tail := (collapseSpaces false (after ++ subject)).rdropWhile isSpace
  have hspaced : spaced (before ++ (word ++ (gap ++ c :: after)) ++ subject) =
      word ++ (gap' ++ c :: tail) := by
    have hfront : ∀ t : Text, (word ++ t).dropWhile isSpace = word ++ t := by
      intro t
      cases word with
      | nil => exact absurd rfl hne
      | cons x word =>
        have hx := (hplain x List.mem_cons_self).1
        exact List.dropWhile_cons_of_neg (by rw [hx]; exact Bool.false_ne_true)
    rw [spaced, trim_eq, List.append_assoc, dropWhile_collapseSpaces_append hbefore]
    simp only [List.append_assoc, List.cons_append]
    rw [collapseSpaces_word fun x hx => (hplain x hx).1, hcollapse, hfront, ← List.append_assoc,
      rdropWhile_append_cons (isSpace_colon hc), List.append_assoc]
  refine ⟨tail.dropWhile isSpace, ?_, ?_⟩
  · rw [hspaced]
    exact replyPrefix_eq_some_iff.mpr ⟨word, gap', c, tail, rfl, hword, hgap', hc, rfl⟩
  · rw [trim_eq, List.dropWhile_idempotent, dropWhile_rdropWhile, List.rdropWhile_idempotent,
      dropWhile_collapseSpaces_append hafter]
    rfl

theorem baseSubject_of_prefix {p : Text} (hp : IsReplyPrefix p) (subject : Text) :
    baseSubject (p ++ subject) = baseSubject subject := by
  obtain ⟨rest, hrest, htrim⟩ := replyPrefix_spaced hp subject
  have hlt : rest.length < (spaced (p ++ subject)).length := length_stripWord hrest
  have hle : (spaced subject).length ≤ rest.length := by
    rw [← htrim]
    exact length_trim_le rest
  obtain ⟨-, hmore, -⟩ := stripReplies_spec (tidy_spaced subject) (Nat.le_refl _)
  rw [baseSubject_eq, baseSubject_eq]
  cases hlen : (spaced (p ++ subject)).length with
  | zero => omega
  | succ n =>
    rw [stripReplies, hrest]
    show stripReplies n (trim rest) = _
    rw [htrim]
    exact hmore n (by omega)

theorem baseSubject_of_prefixes {prefixes : List Text} (h : ∀ p ∈ prefixes, IsReplyPrefix p)
    (subject : Text) : baseSubject (prefixes.flatten ++ subject) = baseSubject subject := by
  induction prefixes with
  | nil => rfl
  | cons p prefixes ih =>
    rw [List.flatten_cons, List.append_assoc, baseSubject_of_prefix (h p List.mem_cons_self)]
    exact ih fun q hq => h q (List.mem_cons_of_mem p hq)

theorem tidy_baseSubject (subject : Text) : Tidy (baseSubject subject) :=
  (stripReplies_spec (tidy_spaced subject) (Nat.le_refl _)).1

theorem baseSubject_idempotent (subject : Text) :
    baseSubject (baseSubject subject) = baseSubject subject := by
  have hnone := replyPrefix_baseSubject subject
  rw [baseSubject_eq (baseSubject subject), (tidy_baseSubject subject).spaced_eq]
  cases (baseSubject subject).length with
  | zero => rfl
  | succ n => rw [stripReplies, hnone]

theorem baseSubject_ne_prefix {p : Text} (hp : IsReplyPrefix p) (subject rest : Text) :
    baseSubject subject ≠ p ++ rest := by
  intro h
  obtain ⟨left, hleft, -⟩ := replyPrefix_spaced hp rest
  rw [← h, (tidy_baseSubject subject).spaced_eq, replyPrefix_baseSubject] at hleft
  cases hleft

/-- The loop ends after at most as many rounds as the text has characters; the result is a fixed
point, no prefix stands before it, only prefixes have been removed, and prefixes put before a
subject, of any kind and number, leave its normalised form the same. -/
theorem baseSubject_normal (toLowerCase : Text → Text) (subject : Text) :
    (∀ n, (spaced subject).length ≤ n →
      stripReplies n (spaced subject) = baseSubject subject ∧
        replyPrefix (stripReplies n (spaced subject)) = none) ∧
    baseSubject (baseSubject subject) = baseSubject subject ∧
    (¬∃ p rest, IsReplyPrefix p ∧ baseSubject subject = p ++ rest) ∧
    (∃ prefixes : List Text, (∀ p ∈ prefixes, IsReplyPrefix p) ∧
      spaced subject = prefixes.flatten ++ baseSubject subject) ∧
    ∀ ps qs : List Text, (∀ p ∈ ps, IsReplyPrefix p) → (∀ q ∈ qs, IsReplyPrefix q) →
      normalizeSubject toLowerCase (ps.flatten ++ subject) =
        normalizeSubject toLowerCase (qs.flatten ++ subject) := by
  obtain ⟨-, hmore, hprefixes⟩ := stripReplies_spec (tidy_spaced subject) (Nat.le_refl _)
  refine ⟨?_, baseSubject_idempotent subject, ?_, hprefixes, ?_⟩
  · intro n hn
    have hloop : stripReplies n (spaced subject) = baseSubject subject := hmore n hn
    exact ⟨hloop, by rw [hloop]; exact replyPrefix_baseSubject subject⟩
  · rintro ⟨p, rest, hp, h⟩
    exact baseSubject_ne_prefix hp subject rest h
  · intro ps qs hps hqs
    rw [normalizeSubject, normalizeSubject, baseSubject_of_prefixes hps,
      baseSubject_of_prefixes hqs]

theorem isReplyPrefix_re : IsReplyPrefix " RE\t：".toList :=
  ⟨[' '], "RE".toList, ['\t'], '：', [], rfl, List.forall_mem_singleton.mpr rfl, by decide,
    List.forall_mem_singleton.mpr rfl, .inr rfl, nofun⟩

/-- A plan and a reply to it. -/
theorem baseSubject_normal_plan :
    replyPrefix (stripReplies 4 (spaced "Plan".toList)) = none ∧
      normalizeSubject asciiLower (" RE\t：".toList ++ "Plan".toList) =
        normalizeSubject asciiLower "Plan".toList := by
  obtain ⟨hloop, -, -, -, hsame⟩ := baseSubject_normal asciiLower "Plan".toList
  refine ⟨(hloop 4 (by decide)).2, ?_⟩
  exact hsame [" RE\t：".toList] [] (List.forall_mem_singleton.mpr isReplyPrefix_re) nofun

end Lyra.Conversation
