import Lyra.Lib.Like
import Lyra.Store.Messages

/-!
# Stale headers

A stored header is replaced when it is absent, empty, still encoded or decoded with the wrong
charset.  The rule is written twice: `header_needs_refresh` looks for substrings when a message is
read, `stale_text` asks the database when it is written.

* `staleText_iff`: what the database finds stale, in terms of what `LIKE` reads of a text;
* `agrees_iff`: when the two rules say the same of a header;
* `shown_iff`: then what the reader shows is what the store keeps.
-/

namespace Lyra

open Lyra.Lib

/-! ## The rule of the reader -/

def openSign : Text := "=?".toList

def closeSign : Text := "?=".toList

/-- `header_needs_refresh`. -/
def headerNeedsRefresh (existing : Option Text) : Bool :=
  let value := existing.getD []
  value.isEmpty || (containsText openSign value && containsText closeSign value) ||
    value.contains mojibakeChar

/-! ## The rule of the store -/

/-- What `LIKE` of a database makes of texts: it reads up to a character that ends them, and takes
characters for the same when they fold to the same. -/
structure LikeEngine where
  ends : Char → Bool
  fold : Char → Char

/-- SQLite reads up to a NUL, folds ASCII letters and takes U+FFFE and U+FFFF for U+FFFD. -/
def sqliteLike : LikeEngine where
  ends c := c == Char.ofNat 0
  fold c := if c.toNat = 0xfffe ∨ c.toNat = 0xffff then mojibakeChar else c.toLower

def postgresLike : LikeEngine where
  ends _ := false
  fold c := c

/-- SQL's `OR`; `none` is `NULL`. -/
def sqlOr : Option Bool → Option Bool → Option Bool
  | some true, _ => some true
  | _, some true => some true
  | some false, some false => some false
  | _, _ => none

/-- SQL's `CASE WHEN … THEN … ELSE … END`. -/
def sqlCase (cond : Option Bool) (a b : Option Text) : Option Text :=
  if cond = some true then a else b

namespace LikeEngine

variable (e : LikeEngine)

def reads (s : Text) : Text := s.takeWhile (!e.ends ·)

def same (a b : Char) : Bool := e.fold a == e.fold b

/-- `LIKE` with a pattern that escapes nothing. -/
def like (p s : Text) : Bool := Lib.like e.same none p (e.reads s)

/-- `stale_text`. -/
def staleText (col : Option Text) : Option Bool :=
  sqlOr (sqlOr (sqlOr (some col.isNone) (col.map (· == [])))
    (col.map (e.like "%=?%?=%".toList))) (col.map (e.like ['%', mojibakeChar, '%']))

/-- What the upsert leaves of a text column. -/
def storedText (current incoming : Option Text) : Option Text :=
  sqlCase (e.staleText current) incoming current

end LikeEngine

/-- What the reader shows of a text column after a fetch. -/
def shownText (current fetched : Option Text) : Option Text :=
  if headerNeedsRefresh current then fetched else current

/-! ## What the rules look for -/

/-- Both signs of an encoded word, wherever they stand. -/
def BothSigns (s : Text) : Prop := openSign <:+: s ∧ closeSign <:+: s

namespace LikeEngine

variable (e : LikeEngine)

/-- The engine finds `t` in what it reads of `s`. -/
def Finds (t s : Text) : Prop := Contains e.same t (e.reads s)

/-- The engine finds a closing sign behind an opening one. -/
def FindsWord (s : Text) : Prop :=
  ∃ a mid b, e.reads s = a ++ mid ++ b ∧
    List.Forall₂ (fun x y => e.same x y = true) openSign mid ∧ Contains e.same closeSign b

/-- The two rules look at one text and see the same. -/
structure SeesMarks (s : Text) : Prop where
  signs : BothSigns s → e.FindsWord s ∨ e.Finds [mojibakeChar] s
  mojibake : mojibakeChar ∈ s → e.FindsWord s ∨ e.Finds [mojibakeChar] s
  others : e.FindsWord s ∨ e.Finds [mojibakeChar] s → BothSigns s ∨ mojibakeChar ∈ s

end LikeEngine

/-! ## Each rule -/

theorem headerNeedsRefresh_none : headerNeedsRefresh none = true := rfl

theorem headerNeedsRefresh_some (s : Text) :
    headerNeedsRefresh (some s) = true ↔ s = [] ∨ BothSigns s ∨ mojibakeChar ∈ s := by
  simp [headerNeedsRefresh, BothSigns, containsText_iff, or_assoc]

theorem sqlOr_eq_true (a b : Option Bool) :
    sqlOr a b = some true ↔ a = some true ∨ b = some true := by
  rcases a with - | - | - <;> rcases b with - | - | - <;> simp [sqlOr]

section Engine

variable {e : LikeEngine} {s : Text}

theorem like_word : e.like "%=?%?=%".toList s = true ↔ e.FindsWord s := by
  have hscan : scanPattern none false "%=?%?=%".toList =
      (.any :: openSign.map .char ++ .any :: closeSign.map .char ++ [.any], false) := by decide
  unfold LikeEngine.like like
  rw [hscan]
  exact matchItems_behind

theorem like_mojibake : e.like ['%', mojibakeChar, '%'] s = true ↔ e.Finds [mojibakeChar] s := by
  have hscan : scanPattern none false ['%', mojibakeChar, '%'] =
      (.any :: [mojibakeChar].map .char ++ [.any], false) := by decide
  unfold LikeEngine.like like
  rw [hscan]
  exact matchItems_contains

theorem staleText_none : e.staleText none = some true := rfl

theorem staleText_iff :
    e.staleText (some s) = some true ↔ s = [] ∨ e.FindsWord s ∨ e.Finds [mojibakeChar] s := by
  unfold LikeEngine.staleText
  rw [sqlOr_eq_true, sqlOr_eq_true, sqlOr_eq_true, Option.map_some, Option.map_some, Option.map_some,
    Option.some.injEq, Option.some.injEq, Option.some.injEq, Option.some.injEq, like_word,
    like_mojibake]
  simp [or_assoc]

/-- Nothing is found in the empty text. -/
theorem seesMarks_nil : e.SeesMarks [] := by
  have hreads : e.reads [] = [] := rfl
  refine ⟨fun h => ?_, fun h => ?_, fun h => ?_⟩
  · exact absurd (List.infix_nil.mp h.1) (by decide)
  · cases h
  · rcases h with ⟨a, mid, b, hs, hmid, -⟩ | ⟨mid, hmid, hrel⟩
    · rw [hreads] at hs
      have := hmid.length_eq
      have hlen := congrArg List.length hs
      simp [openSign] at this hlen
      omega
    · rw [hreads, List.infix_nil] at hmid
      subst hmid
      cases hrel

end Engine

/-! ## The two rules -/

/-- The rules agree on a header exactly where the engine sees the marks that are there, and no
others. -/
theorem agrees_iff (e : LikeEngine) (col : Option Text) :
    (headerNeedsRefresh col = true ↔ e.staleText col = some true) ↔ ∀ s ∈ col, e.SeesMarks s := by
  cases col with
  | none => simp [headerNeedsRefresh_none, staleText_none]
  | some s =>
    rw [headerNeedsRefresh_some, staleText_iff]
    constructor
    · intro h t ht
      obtain rfl := Option.some.inj ht
      by_cases hs : s = []
      · exact hs ▸ seesMarks_nil
      · rw [or_iff_right hs, or_iff_right hs] at h
        exact ⟨fun hsigns => h.mp (.inl hsigns), fun hmojibake => h.mp (.inr hmojibake), h.mpr⟩
    · intro h
      obtain ⟨hsigns, hmojibake, hothers⟩ := h s rfl
      exact or_congr_right ⟨fun hs => hs.elim hsigns hmojibake, hothers⟩

/-- A subject with a sign that opens and closes at once: the reader asks the server for it at every
view, and the store keeps what it has. -/
theorem overlapping_signs_disagree :
    headerNeedsRefresh (some "a =?= b".toList) = true ∧
      sqliteLike.staleText (some "a =?= b".toList) = some false ∧
      postgresLike.staleText (some "a =?= b".toList) = some false := by
  decide

/-- Where the rules agree, and only there, the reader shows what the store keeps. -/
theorem shown_iff (e : LikeEngine) (col : Option Text) :
    (∀ fetched, shownText col fetched = e.storedText col fetched) ↔
      (headerNeedsRefresh col = true ↔ e.staleText col = some true) := by
  unfold shownText LikeEngine.storedText sqlCase
  constructor
  · intro h
    have hne : some (col.getD [] ++ ['x']) ≠ col := by
      cases col with
      | none => exact Option.some_ne_none _
      | some s => simp
    have hall := h (some (col.getD [] ++ ['x']))
    split at hall <;> split at hall
    · simp_all
    · exact absurd hall hne
    · exact absurd hall.symm hne
    · simp_all
  · intro h fetched
    rw [if_congr h rfl rfl]

/-! ## An engine that reads texts as they are -/

/-- A closing sign behind an opening one. -/
def EncodedWord (s : Text) : Prop := ∃ a b, s = a ++ openSign ++ b ∧ closeSign <:+: b

theorem postgres_reads (s : Text) : postgresLike.reads s = s := by
  induction s with
  | nil => rfl
  | cons c s ih => exact congrArg (c :: ·) ih

theorem postgres_forall₂ {t mid : Text} :
    List.Forall₂ (fun x y => postgresLike.same x y = true) t mid ↔ t = mid := by
  simp [LikeEngine.same, postgresLike]

theorem postgres_contains {t s : Text} : Contains postgresLike.same t s ↔ t <:+: s := by
  unfold Contains
  simp only [postgres_forall₂]
  constructor
  · rintro ⟨mid, hmid, rfl⟩
    exact hmid
  · intro h
    exact ⟨t, h, rfl⟩

theorem postgres_findsWord {s : Text} : postgresLike.FindsWord s ↔ EncodedWord s := by
  unfold LikeEngine.FindsWord EncodedWord
  simp only [postgres_reads, postgres_forall₂, postgres_contains]
  constructor
  · rintro ⟨a, mid, b, hs, rfl, hb⟩
    exact ⟨a, b, hs, hb⟩
  · rintro ⟨a, b, hs, hb⟩
    exact ⟨a, _, b, hs, rfl, hb⟩

theorem postgres_finds {s : Text} : postgresLike.Finds [mojibakeChar] s ↔ mojibakeChar ∈ s := by
  unfold LikeEngine.Finds
  rw [postgres_reads, postgres_contains, List.singleton_infix_iff]

theorem EncodedWord.bothSigns {s : Text} (h : EncodedWord s) : BothSigns s := by
  obtain ⟨a, b, rfl, hb⟩ := h
  exact ⟨⟨a, b, rfl⟩, hb.trans (List.suffix_append _ _).isInfix⟩

/-- Only the order of the signs is left to look at. -/
theorem seesMarks_postgres {s : Text} :
    postgresLike.SeesMarks s ↔ (BothSigns s → EncodedWord s ∨ mojibakeChar ∈ s) := by
  constructor
  · intro h hsigns
    have := h.signs hsigns
    rwa [postgres_findsWord, postgres_finds] at this
  · intro h
    refine ⟨fun hsigns => ?_, fun hmojibake => ?_, fun hfound => ?_⟩
    · rw [postgres_findsWord, postgres_finds]
      exact h hsigns
    · exact .inr (postgres_finds.mpr hmojibake)
    · rw [postgres_findsWord, postgres_finds] at hfound
      exact hfound.imp_left EncodedWord.bothSigns

/-! ## The stored columns -/

theorem afterText_sound {pat s r : Text} (h : afterText pat s = some r) :
    ∃ a, s = a ++ pat ++ r := by
  induction s with
  | nil =>
    rw [afterText] at h
    split at h
    · rename_i hpat
      obtain rfl := Option.some.inj h
      rw [List.isPrefixOf_iff_prefix, List.prefix_nil] at hpat
      exact ⟨[], by rw [hpat]; rfl⟩
    · cases h
  | cons c s ih =>
    rw [afterText] at h
    split at h
    · rename_i hpat
      obtain rfl := Option.some.inj h
      obtain ⟨t, ht⟩ := List.isPrefixOf_iff_prefix.mp hpat
      exact ⟨[], by rw [← ht, List.drop_left]; rfl⟩
    · obtain ⟨a, rfl⟩ := ih h
      exact ⟨c :: a, rfl⟩

/-- The first place leaves the most behind it. -/
theorem afterText_complete {pat b : Text} (a : Text) :
    ∃ r, afterText pat (a ++ pat ++ b) = some r ∧ b <:+ r := by
  induction a with
  | nil =>
    rw [List.nil_append]
    cases hs : pat ++ b with
    | nil =>
      obtain ⟨rfl, rfl⟩ := List.append_eq_nil_iff.mp hs
      exact ⟨[], rfl, List.suffix_refl _⟩
    | cons c s =>
      have hpat : pat.isPrefixOf (c :: s) = true :=
        List.isPrefixOf_iff_prefix.mpr (hs ▸ List.prefix_append pat b)
      refine ⟨_, by rw [afterText, if_pos hpat], ?_⟩
      rw [← hs, List.drop_left]
  | cons c a ih =>
    rw [List.cons_append, List.cons_append, afterText]
    split
    · rename_i hpat
      refine ⟨_, rfl, ?_⟩
      have hlen : pat.length ≤ (c :: (a ++ pat)).length := by simp; omega
      rw [← List.cons_append, List.drop_append_of_le_length hlen]
      exact List.suffix_append _ _
    · exact ih

theorem afterText_any_iff {pat q s : Text} :
    (afterText pat s).any (containsText q) = true ↔ ∃ a b, s = a ++ pat ++ b ∧ q <:+: b := by
  constructor
  · intro h
    cases hr : afterText pat s with
    | none =>
      rw [hr] at h
      cases h
    | some r =>
      rw [hr, Option.any_some] at h
      obtain ⟨a, ha⟩ := afterText_sound hr
      exact ⟨a, r, ha, containsText_iff.mp h⟩
  · rintro ⟨a, b, rfl, hq⟩
    obtain ⟨r, hr, hb⟩ : ∃ r, afterText pat (a ++ pat ++ b) = some r ∧ b <:+ r :=
      afterText_complete a
    rw [hr, Option.any_some]
    exact containsText_iff.mpr (hq.trans hb.isInfix)

/-- The condition of the upsert, as the store's rows have it. -/
theorem staleText_postgres (col : Option Text) :
    postgresLike.staleText col = some true ↔ Lyra.staleText col = true := by
  cases col with
  | none => simp [staleText_none, staleText]
  | some s =>
    rw [staleText_iff, postgres_findsWord, postgres_finds]
    simp only [staleText, Bool.or_eq_true, List.isEmpty_iff, afterText_any_iff, isMojibake,
      Option.any_some, List.contains_iff_mem, or_assoc]
    rfl

end Lyra
