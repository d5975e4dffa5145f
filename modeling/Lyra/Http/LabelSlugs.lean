import Lyra.Dav.Xml
import Lyra.Http.Requests
import Lyra.Lib.Distinct
import Lyra.Lib.Lines
import Lyra.Lib.Trim

/-!
# Label slugs

`sanitize_label` makes a slug of a text: letters and digits in runs joined by single dashes, cut
at 40 characters.  The cut may leave a dash at the end, which is trimmed once more.

* `sanitizeLabel_fixed`: a slug is its own slug;
* `isAtom_labelKeyword`: the keyword of a slug is an atom of the IMAP grammar;
* `sanitizeLabels_stable`: both, and what a list of labels becomes.
-/

namespace Lyra

open Lyra.Lib

/-! ## Atoms -/

/-- `atom-specials` of the IMAP grammar. -/
def isAtomSpecial (c : Char) : Bool :=
  c ∈ ['(', ')', '\x7b', ' ', '%', '*', '"', '\\', ']'] || c.toNat < 32 || c.toNat == 127

/-- A `flag-keyword`: one or more 7-bit characters that are not special. -/
def IsAtom (s : Text) : Prop :=
  s ≠ [] ∧ ∀ c ∈ s, 0 < c.toNat ∧ c.toNat < 128 ∧ isAtomSpecial c = false

/-! ## Slugs -/

/-- Letters and digits with single dashes between them; `lastDash` after a dash and at the start. -/
def Slugged : Bool → Text → Prop
  | _, [] => True
  | lastDash, c :: s =>
    if c = '-' then lastDash = false ∧ Slugged true s
    else (c.isLower || c.isDigit) = true ∧ Slugged false s

/-- What `sanitizeLabel` returns. -/
structure IsSlug (s : Text) : Prop where
  nonempty : s ≠ []
  slugged : Slugged true s
  noDashEnd : s.rdropWhile (· = '-') = s
  short : s.length ≤ maxLabelLen

section Slugs

variable {b : Bool} {s t : Text} {c : Char}

theorem isUpper_iff : c.isUpper = true ↔ 65 ≤ c.toNat ∧ c.toNat ≤ 90 := by
  delta Char.isUpper
  simp [UInt32.le_iff_toNat_le]

theorem alnum_iff : (c.isLower || c.isDigit) = true ↔
    (97 ≤ c.toNat ∧ c.toNat ≤ 122) ∨ (48 ≤ c.toNat ∧ c.toNat ≤ 57) := by
  delta Char.isLower Char.isDigit
  simp [UInt32.le_iff_toNat_le]

theorem ne_dash_of_alnum (hc : (c.isLower || c.isDigit) = true) : c ≠ '-' := by
  rintro rfl
  exact absurd hc (by decide)

theorem alnum_toLower (hc : c.isUpper = true) :
    (c.toLower.isLower || c.toLower.isDigit) = true := by
  have hrange := isUpper_iff.mp hc
  have hbounds : c.val ≥ 'A'.val ∧ c.val ≤ 'Z'.val := of_decide_eq_true hc
  have hval : c.toLower.toNat = c.toNat + 32 := by
    have hlower : c.toLower.val = c.val + 32 := by
      unfold Char.toLower
      rw [dif_pos hbounds]
      rfl
    have hshift : (32 : UInt32).toNat = 32 := rfl
    show c.toLower.val.toNat = c.val.toNat + 32
    rw [hlower, UInt32.toNat_add, hshift]
    have hnat : c.val.toNat = c.toNat := rfl
    exact Nat.mod_eq_of_lt (by omega)
  rw [alnum_iff, hval]
  omega

theorem slugged_cons_alnum (hc : (c.isLower || c.isDigit) = true) (h : Slugged false s) :
    Slugged b (c :: s) := by
  rw [Slugged, if_neg (ne_dash_of_alnum hc)]
  exact ⟨hc, h⟩

theorem slugged_slugChars (b : Bool) (s : Text) : Slugged b (slugChars b s) := by
  fun_induction slugChars b s with
  | case1 => exact trivial
  | case2 b c s hc ih => exact slugged_cons_alnum hc ih
  | case3 b c s hc hup ih => exact slugged_cons_alnum (alnum_toLower hup) ih
  | case4 b c s hc hup hdash ih =>
    rw [Slugged, if_pos rfl]
    simp only [Bool.and_eq_true, Bool.not_eq_true'] at hdash
    exact ⟨hdash.2, ih⟩
  | case5 b c s hc hup hdash ih => exact ih

theorem slugChars_of_slugged (h : Slugged b s) : slugChars b s = s := by
  induction s generalizing b with
  | nil => rfl
  | cons c s ih =>
    rw [Slugged] at h
    rw [slugChars]
    split at h
    case isTrue hc =>
      obtain ⟨rfl, h⟩ := h
      subst hc
      rw [if_neg (by decide), if_neg (by decide), if_pos (by decide), ih h]
    case isFalse hc => rw [if_pos h.1, ih h.2]

theorem Slugged.front (h : Slugged b (s ++ t)) : Slugged b s := by
  induction s generalizing b with
  | nil => exact trivial
  | cons c s ih =>
    rw [List.cons_append, Slugged] at h
    rw [Slugged]
    split
    case isTrue hc =>
      rw [if_pos hc] at h
      exact ⟨h.1, ih h.2⟩
    case isFalse hc =>
      rw [if_neg hc] at h
      exact ⟨h.1, ih h.2⟩

theorem Slugged.dropWhile_dash (h : Slugged true s) : s.dropWhile (· = '-') = s := by
  cases s with
  | nil => rfl
  | cons c s =>
    rw [Slugged] at h
    split at h
    case isTrue => exact absurd h.1 (by decide)
    case isFalse hc => exact List.dropWhile_cons_of_neg (by simpa using hc)

theorem Slugged.plain (h : Slugged b s) (hc : c ∈ s) :
    c = '-' ∨ (c.isLower || c.isDigit) = true := by
  induction s generalizing b with
  | nil => cases hc
  | cons d s ih =>
    rw [Slugged] at h
    split at h
    case isTrue hd =>
      rcases List.mem_cons.mp hc with rfl | hc
      · exact .inl hd
      · exact ih h.2 hc
    case isFalse hd =>
      rcases List.mem_cons.mp hc with rfl | hc
      · exact .inr h.1
      · exact ih h.2 hc

theorem trimEndDashes_eq (s : Text) : trimEndDashes s = s.rdropWhile (· = '-') := rfl

theorem slugged_trimmed (raw : Text) :
    Slugged true ((trimEndDashes (slugChars true raw)).take maxLabelLen) := by
  obtain ⟨back, hback⟩ := List.rdropWhile_prefix (· = '-') (slugChars true raw)
  have hslug := slugged_slugChars true raw
  rw [← hback] at hslug
  have hkept := hslug.front
  rw [← trimEndDashes_eq, ← List.take_append_drop maxLabelLen (trimEndDashes _)] at hkept
  exact hkept.front

theorem isSlug_of_sanitizeLabel {raw slug : Text} (h : sanitizeLabel raw = some slug) :
    IsSlug slug := by
  unfold sanitizeLabel at h
  dsimp only at h
  rw [(slugged_trimmed raw).dropWhile_dash, trimEndDashes_eq] at h
  split at h
  case isTrue => cases h
  case isFalse hne =>
    cases h
    obtain ⟨back, hback⟩ := List.rdropWhile_prefix (· = '-')
      ((trimEndDashes (slugChars true raw)).take maxLabelLen)
    have hslug := slugged_trimmed raw
    refine ⟨hne, ?_, List.rdropWhile_idempotent _ _, ?_⟩
    · rw [← hback] at hslug
      exact hslug.front
    · have hlen := (List.rdropWhile_prefix (· = '-')
        ((trimEndDashes (slugChars true raw)).take maxLabelLen)).length_le
      exact Nat.le_trans hlen (List.length_take_le _ _)

theorem sanitizeLabel_of_isSlug (h : IsSlug s) : sanitizeLabel s = some s := by
  unfold sanitizeLabel
  dsimp only
  simp only [slugChars_of_slugged h.slugged, trimEndDashes_eq, h.noDashEnd,
    List.take_of_length_le h.short, h.slugged.dropWhile_dash, if_neg h.nonempty]

theorem sanitizeLabel_fixed {raw slug : Text} (h : sanitizeLabel raw = some slug) :
    sanitizeLabel slug = some slug :=
  sanitizeLabel_of_isSlug (isSlug_of_sanitizeLabel h)

/-! ## The trim before the loop -/

/-! ## Keywords -/

theorem isAtomChar_of_alnum (hc : (c.isLower || c.isDigit) = true) :
    0 < c.toNat ∧ c.toNat < 128 ∧ isAtomSpecial c = false := by
  have hrange := alnum_iff.mp hc
  refine ⟨by omega, by omega, ?_⟩
  have hother : ∀ d : Char, c = d → c.toNat = d.toNat := fun d h => by rw [h]
  simp only [isAtomSpecial, Bool.or_eq_false_iff, decide_eq_false_iff_not, beq_eq_false_iff_ne,
    List.mem_cons, List.not_mem_nil, or_false]
  refine ⟨⟨?_, by omega⟩, by omega⟩
  rintro (h | h | h | h | h | h | h | h | h) <;>
  · have := hother _ h
    simp only [Char.reduceToNat] at this
    omega

theorem isAtom_labelKeyword (h : IsSlug s) : IsAtom (labelKeyword s) := by
  refine ⟨List.append_ne_nil_of_right_ne_nil _ h.nonempty, ?_⟩
  have hprefix : ∀ c ∈ keywordPrefix, c = '-' ∨ (c.isLower || c.isDigit) = true :=
    forall_mem_of_all (by decide)
  have hdash : 0 < '-'.toNat ∧ '-'.toNat < 128 ∧ isAtomSpecial '-' = false := by decide
  intro c hc
  have hplain : c = '-' ∨ (c.isLower || c.isDigit) = true := by
    rcases List.mem_append.mp hc with hc | hc
    · exact hprefix c hc
    · exact h.slugged.plain hc
  rcases hplain with rfl | hc
  · exact hdash
  · exact isAtomChar_of_alnum hc

end Slugs

/-! ## Lists of labels -/

/-- The loop of `sanitize_labels`, which stops at the eighth label. -/
def pushSlugs (out : List Text) : List Text → List Text
  | [] => out
  | label :: raw =>
    match sanitizeLabel label with
    | none => pushSlugs out raw
    | some slug =>
      if slug ∈ out then pushSlugs out raw
      else if maxLabels ≤ (out ++ [slug]).length then out ++ [slug]
      else pushSlugs (out ++ [slug]) raw

theorem pushSlugs_eq (out raw : List Text) :
    pushSlugs out raw = collectNew maxLabels out (raw.filterMap sanitizeLabel) := by
  induction raw generalizing out with
  | nil => rfl
  | cons label raw ih =>
    rw [pushSlugs]
    cases hlabel : sanitizeLabel label with
    | none => rw [List.filterMap_cons_none hlabel]; exact ih out
    | some slug =>
      rw [List.filterMap_cons_some hlabel, collectNew]
      simp only [ih]

theorem sanitizeLabels_eq (raw : List Text) :
    sanitizeLabels raw = (raw.filterMap sanitizeLabel).eraseDups.take maxLabels :=
  congrArg (List.take maxLabels) (foldl_pushNew (raw.filterMap sanitizeLabel))

/-- Stopping early and cutting at the end are the same. -/
theorem pushSlugs_nil (raw : List Text) : pushSlugs [] raw = sanitizeLabels raw := by
  rw [pushSlugs_eq, collectNew_eq_take (by decide), foldl_pushNew, sanitizeLabels_eq]

theorem sanitizeLabel_of_mem {raw : List Text} {slug : Text} (h : slug ∈ sanitizeLabels raw) :
    sanitizeLabel slug = some slug := by
  rw [sanitizeLabels_eq] at h
  obtain ⟨label, -, hlabel⟩ :=
    List.mem_filterMap.mp (List.mem_eraseDups.mp (List.mem_of_mem_take h))
  exact sanitizeLabel_fixed hlabel

theorem nodup_sanitizeLabels (raw : List Text) : (sanitizeLabels raw).Nodup := by
  rw [sanitizeLabels_eq]
  exact (nodup_eraseDups _).sublist (List.take_sublist _ _)

theorem length_sanitizeLabels (raw : List Text) : (sanitizeLabels raw).length ≤ maxLabels :=
  List.length_take_le _ _

theorem sanitizeLabels_idempotent (raw : List Text) :
    sanitizeLabels (sanitizeLabels raw) = sanitizeLabels raw := by
  have hfixed : (sanitizeLabels raw).filterMap sanitizeLabel = sanitizeLabels raw := by
    conv_rhs => rw [← List.filterMap_some (l := sanitizeLabels raw)]
    exact List.filterMap_congr fun slug hslug => sanitizeLabel_of_mem hslug
  rw [sanitizeLabels_eq (sanitizeLabels raw), hfixed, eraseDups_of_nodup (nodup_sanitizeLabels raw),
    List.take_of_length_le (length_sanitizeLabels raw)]

/-- The labels of a list: at most eight of the slugs, each once, in the order of their first
occurrences, and what is left out comes behind eight others. -/
structure FirstLabels (slugs out : List Text) : Prop where
  atMost : out.length ≤ 8
  nodup : out.Nodup
  mem : ∀ slug ∈ out, slug ∈ slugs
  ordered : out.Pairwise fun a b => slugs.idxOf a < slugs.idxOf b
  leftOut : ∀ slug ∈ slugs, slug ∉ out →
    out.length = 8 ∧ ∀ other ∈ out, slugs.idxOf other < slugs.idxOf slug

theorem firstLabels_take (slugs : List Text) :
    FirstLabels slugs (slugs.eraseDups.take maxLabels) := by
  have horder := pairwise_idxOf_eraseDups slugs
  refine ⟨List.length_take_le _ _, (nodup_eraseDups slugs).sublist (List.take_sublist _ _), ?_,
    horder.sublist (List.take_sublist _ _), ?_⟩
  · intro slug hslug
    exact List.mem_eraseDups.mp (List.mem_of_mem_take hslug)
  · intro slug hslug hout
    rw [← List.take_append_drop maxLabels slugs.eraseDups] at horder
    have hdrop : slug ∈ slugs.eraseDups.drop maxLabels := by
      have hmem := List.mem_eraseDups.mpr hslug
      rw [← List.take_append_drop maxLabels slugs.eraseDups] at hmem
      exact (List.mem_append.mp hmem).resolve_left hout
    refine ⟨?_, fun other hother => (List.pairwise_append.mp horder).2.2 other hother slug hdrop⟩
    have hlen := List.length_pos_of_mem hdrop
    rw [List.length_drop] at hlen
    rw [List.length_take, Nat.min_eq_left (by omega)]
    rfl

/-- A label is nothing or a slug that is its own slug and an IMAP keyword; the labels of a list are
the first eight slugs and their own labels. -/
theorem sanitizeLabels_stable :
    (∀ raw slug, sanitizeLabel raw = some slug →
      sanitizeLabel slug = some slug ∧ IsAtom (labelKeyword slug)) ∧
    ∀ raw : List Text,
      FirstLabels (raw.filterMap sanitizeLabel) (sanitizeLabels raw) ∧
      (∀ slug ∈ sanitizeLabels raw, sanitizeLabel slug = some slug) ∧
      sanitizeLabels (sanitizeLabels raw) = sanitizeLabels raw := by
  refine ⟨fun raw slug h => ?_, fun raw => ?_⟩
  · exact ⟨sanitizeLabel_fixed h, isAtom_labelKeyword (isSlug_of_sanitizeLabel h)⟩
  · refine ⟨?_, fun slug hslug => sanitizeLabel_of_mem hslug, sanitizeLabels_idempotent raw⟩
    rw [sanitizeLabels_eq]
    exact firstLabels_take _

/-- A label in capitals, with a space and a mark. -/
theorem sanitizeLabels_stable_travel :
    sanitizeLabel "work-travel".toList = some "work-travel".toList ∧
      IsAtom (labelKeyword "work-travel".toList) :=
  sanitizeLabels_stable.1 "Work Travel!".toList "work-travel".toList (by decide)

end Lyra
