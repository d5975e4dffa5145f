import Mathlib.Data.List.Forall2
import Mathlib.Data.List.Infix

/-!
# LIKE patterns

The matching of SQL's `LIKE`: `%` stands for any text, `_` for any character, and what follows
the escape character for itself.  `eqv` says which characters are the same.

* `like_escaped`: an escaped text between two `%` is found exactly where it is contained;
* `matchItems_behind`: two texts with `%` around them are found one behind the other;
* `like_wild`: an unescaped one also finds the text in which `_` is filled in and `%` and the
  escape characters are left out;
* `contains_word`: a text without spaces lies within one of the words it is found in.
-/

namespace Lyra.Lib

/-! ## Patterns -/

inductive PatternItem
  | any
  | one
  | char (c : Char)
  deriving DecidableEq, Repr

/-- The items of a pattern, and whether its last character escapes what follows; the flag says
that the character before did. -/
def scanPattern (escape : Option Char) : Bool → List Char → List PatternItem × Bool
  | escaped, [] => ([], escaped)
  | true, c :: p => (.char c :: (scanPattern escape false p).1, (scanPattern escape false p).2)
  | false, c :: p =>
    if escape = some c then scanPattern escape true p
    else
      ((if c = '%' then .any else if c = '_' then .one else .char c) ::
        (scanPattern escape false p).1, (scanPattern escape false p).2)

section Matching

variable (eqv : Char → Char → Bool)

def matchItems : List PatternItem → List Char → Bool
  | [], s => s.isEmpty
  | .any :: p, s => s.tails.any fun u => matchItems p u
  | .one :: _, [] => false
  | .one :: p, _ :: s => matchItems p s
  | .char _ :: _, [] => false
  | .char x :: p, c :: s => eqv x c && matchItems p s

/-- A pattern that ends with its escape character matches nothing. -/
def like (escape : Option Char) (p s : List Char) : Bool :=
  !(scanPattern escape false p).2 && matchItems eqv (scanPattern escape false p).1 s

/-- A part of `s` is `t`, character by character. -/
def Contains (t s : List Char) : Prop :=
  ∃ mid, mid <:+: s ∧ List.Forall₂ (fun a b => eqv a b = true) t mid

end Matching

theorem scanPattern_append (escape : Option Char) (escaped : Bool) (t u : List Char) :
    scanPattern escape escaped (t ++ u) =
      ((scanPattern escape escaped t).1 ++ (scanPattern escape (scanPattern escape escaped t).2 u).1,
        (scanPattern escape (scanPattern escape escaped t).2 u).2) := by
  induction t generalizing escaped with
  | nil => cases escaped <;> rfl
  | cons c t ih =>
    cases escaped with
    | true => rw [List.cons_append, scanPattern, scanPattern, ih, List.cons_append]
    | false =>
      rw [List.cons_append, scanPattern, scanPattern]
      split
      · exact ih true
      · rw [ih, List.cons_append]

section Rules

variable {eqv : Char → Char → Bool} {x : Char} {p : List PatternItem} {s t : List Char}

theorem matchItems_any : matchItems eqv (.any :: p) s = true ↔
    ∃ pre u, s = pre ++ u ∧ matchItems eqv p u = true := by
  rw [matchItems, List.any_eq_true]
  constructor
  · rintro ⟨u, hu, h⟩
    obtain ⟨pre, hpre⟩ := (List.mem_tails _ _).mp hu
    exact ⟨pre, u, hpre.symm, h⟩
  · rintro ⟨pre, u, hs, h⟩
    exact ⟨u, (List.mem_tails _ _).mpr ⟨pre, hs.symm⟩, h⟩

theorem matchItems_char : matchItems eqv (.char x :: p) s = true ↔
    ∃ c u, s = c :: u ∧ eqv x c = true ∧ matchItems eqv p u = true := by
  cases s with
  | nil => simp [matchItems]
  | cons c u => simp [matchItems]

theorem matchItems_one : matchItems eqv (.one :: p) s = true ↔
    ∃ c u, s = c :: u ∧ matchItems eqv p u = true := by
  cases s with
  | nil => simp [matchItems]
  | cons c u => simp [matchItems]

/-- Characters at the front of a pattern stand for a text of their length. -/
theorem matchItems_chars : matchItems eqv (t.map .char ++ p) s = true ↔
    ∃ mid post, s = mid ++ post ∧ List.Forall₂ (fun a b => eqv a b = true) t mid ∧
      matchItems eqv p post = true := by
  induction t generalizing s with
  | nil =>
    constructor
    · intro h
      exact ⟨[], s, rfl, .nil, h⟩
    · rintro ⟨mid, post, rfl, hmid, h⟩
      cases hmid
      exact h
  | cons c t ih =>
    rw [List.map_cons, List.cons_append, matchItems_char]
    constructor
    · rintro ⟨d, u, rfl, hcd, hu⟩
      obtain ⟨mid, post, rfl, hmid, h⟩ := ih.mp hu
      exact ⟨d :: mid, post, rfl, .cons hcd hmid, h⟩
    · rintro ⟨mid, post, rfl, hmid, h⟩
      cases hmid with
      | cons hcd hmid => exact ⟨_, _, rfl, hcd, ih.mpr ⟨_, post, rfl, hmid, h⟩⟩

theorem matchItems_rest : matchItems eqv [.any] s = true :=
  matchItems_any.mpr ⟨s, [], (List.append_nil s).symm, rfl⟩

theorem matchItems_text : matchItems eqv (t.map .char ++ [.any]) s = true ↔
    ∃ mid post, s = mid ++ post ∧ List.Forall₂ (fun a b => eqv a b = true) t mid := by
  rw [matchItems_chars]
  constructor
  · rintro ⟨mid, post, hs, hmid, -⟩
    exact ⟨mid, post, hs, hmid⟩
  · rintro ⟨mid, post, hs, hmid⟩
    exact ⟨mid, post, hs, hmid, matchItems_rest⟩

theorem matchItems_contains :
    matchItems eqv (.any :: t.map .char ++ [.any]) s = true ↔ Contains eqv t s := by
  rw [List.cons_append, matchItems_any]
  constructor
  · rintro ⟨pre, u, rfl, hu⟩
    obtain ⟨mid, post, rfl, hmid⟩ := matchItems_text.mp hu
    exact ⟨mid, ⟨pre, post, List.append_assoc _ _ _⟩, hmid⟩
  · rintro ⟨mid, ⟨pre, post, rfl⟩, hmid⟩
    exact ⟨pre, mid ++ post, List.append_assoc _ _ _, matchItems_text.mpr ⟨mid, post, rfl, hmid⟩⟩

/-- A text, and behind it another one. -/
theorem matchItems_behind {t' : List Char} :
    matchItems eqv (.any :: t.map .char ++ .any :: t'.map .char ++ [.any]) s = true ↔
      ∃ a mid b, s = a ++ mid ++ b ∧ List.Forall₂ (fun a b => eqv a b = true) t mid ∧
        Contains eqv t' b := by
  rw [List.append_assoc, List.cons_append, matchItems_any]
  constructor
  · rintro ⟨a, u, rfl, hu⟩
    obtain ⟨mid, b, rfl, hmid, hb⟩ := matchItems_chars.mp hu
    exact ⟨a, mid, b, (List.append_assoc _ _ _).symm, hmid, matchItems_contains.mp hb⟩
  · rintro ⟨a, mid, b, rfl, hmid, hb⟩
    exact ⟨a, mid ++ b, List.append_assoc _ _ _,
      matchItems_chars.mpr ⟨mid, b, rfl, hmid, matchItems_contains.mpr hb⟩⟩

/-- A pattern that ends with a character is matched by texts that end with it. -/
theorem matchItems_concat (h : matchItems eqv (p ++ [.char x]) s = true) :
    ∃ pre c, s = pre ++ [c] ∧ eqv x c = true := by
  induction p generalizing s with
  | nil =>
    obtain ⟨c, u, rfl, hc, hu⟩ := matchItems_char.mp h
    obtain rfl := List.isEmpty_iff.mp hu
    exact ⟨[], c, rfl, hc⟩
  | cons i p ih =>
    cases i with
    | any =>
      obtain ⟨pre, u, rfl, hu⟩ := matchItems_any.mp h
      obtain ⟨pre', c, rfl, hc⟩ := ih hu
      exact ⟨pre ++ pre', c, (List.append_assoc _ _ _).symm, hc⟩
    | one =>
      obtain ⟨d, u, rfl, hu⟩ := matchItems_one.mp h
      obtain ⟨pre, c, rfl, hc⟩ := ih hu
      exact ⟨d :: pre, c, rfl, hc⟩
    | char y =>
      obtain ⟨d, u, rfl, -, hu⟩ := matchItems_char.mp h
      obtain ⟨pre, c, rfl, hc⟩ := ih hu
      exact ⟨d :: pre, c, rfl, hc⟩

end Rules

/-! ## Patterns between two signs -/

/-- The characters with a meaning in a pattern whose escape character is a backslash. -/
def special (c : Char) : Bool := c == '%' || c == '_' || c == '\\'

def escapeLike (t : List Char) : List Char :=
  t.flatMap fun c => if special c then ['\\', c] else [c]

/-- The items of a text, with a backslash to escape. -/
def itemsOf (t : List Char) : List PatternItem := (scanPattern (some '\\') false t).1

/-- The last character is a backslash that is not escaped. -/
def endsEscaping (t : List Char) : Bool := (scanPattern (some '\\') false t).2

section Between

variable {eqv : Char → Char → Bool} {c : Char} {s t : List Char}

theorem not_special (h : special c = false) : c ≠ '%' ∧ c ≠ '_' ∧ c ≠ '\\' := by
  unfold special at h
  simp only [Bool.or_eq_false_iff, beq_eq_false_iff_ne] at h
  exact ⟨h.1.1, h.1.2, h.2⟩

/-- A text between two `%` is one more pattern, whose end may take the second one for itself. -/
theorem like_between : like eqv (some '\\') ('%' :: t ++ ['%']) s =
    matchItems eqv (.any :: itemsOf t ++ [if endsEscaping t then .char '%' else .any]) s := by
  have hlast : ∀ escaped, scanPattern (some '\\') escaped ['%'] =
      ([if escaped then .char '%' else .any], false) := by
    intro escaped
    cases escaped with
    | true => rfl
    | false => rfl
  have hscan : scanPattern (some '\\') false ('%' :: t ++ ['%']) =
      (.any :: itemsOf t ++ [if endsEscaping t then .char '%' else .any], false) := by
    rw [List.cons_append, scanPattern, if_neg (by decide), if_pos rfl, scanPattern_append, hlast]
    rfl
  unfold like
  rw [hscan]
  rfl

theorem scan_plain (h : ∀ c ∈ t, special c = false) :
    scanPattern (some '\\') false t = (t.map .char, false) := by
  induction t with
  | nil => rfl
  | cons c t ih =>
    obtain ⟨hpercent, hunderscore, hescape⟩ := not_special (h c List.mem_cons_self)
    rw [scanPattern, if_neg fun he => hescape (Option.some.inj he).symm, if_neg hpercent,
      if_neg hunderscore, ih fun c hc => h c (List.mem_cons_of_mem _ hc)]
    rfl

theorem scan_escapeLike : scanPattern (some '\\') false (escapeLike t) = (t.map .char, false) := by
  induction t with
  | nil => rfl
  | cons c t ih =>
    have hcons : escapeLike (c :: t) =
        (if special c then ['\\', c] else [c]) ++ escapeLike t := rfl
    have hone : scanPattern (some '\\') false (if special c then ['\\', c] else [c]) =
        ([.char c], false) := by
      cases hc : special c with
      | true => rfl
      | false =>
        have hplain := scan_plain (t := [c]) fun d hd => (List.mem_singleton.mp hd) ▸ hc
        simpa using hplain
    rw [hcons, scanPattern_append, hone, ih]
    rfl

/-- An escaped text is found exactly where it is contained. -/
theorem like_escaped :
    like eqv (some '\\') ('%' :: escapeLike t ++ ['%']) s = true ↔ Contains eqv t s := by
  have hitems : itemsOf (escapeLike t) = t.map .char := congrArg Prod.fst scan_escapeLike
  have hend : endsEscaping (escapeLike t) = false := congrArg Prod.snd scan_escapeLike
  rw [like_between, hitems, hend]
  exact matchItems_contains

theorem like_plain (h : ∀ c ∈ t, special c = false) :
    like eqv (some '\\') ('%' :: t ++ ['%']) s = true ↔ Contains eqv t s := by
  have hitems : itemsOf t = t.map .char := congrArg Prod.fst (scan_plain h)
  have hend : endsEscaping t = false := congrArg Prod.snd (scan_plain h)
  rw [like_between, hitems, hend]
  exact matchItems_contains

/-- A backslash at the end asks for a `%` at the end. -/
theorem like_endsEscaping (hend : endsEscaping t = true)
    (h : like eqv (some '\\') ('%' :: t ++ ['%']) s = true) :
    ∃ pre c, s = pre ++ [c] ∧ eqv '%' c = true := by
  rw [like_between, hend] at h
  exact matchItems_concat h

end Between

/-! ## What an unescaped pattern finds -/

def PatternItem.fill : PatternItem → List Char
  | any => []
  | one => ['x']
  | char c => [c]

/-- A shortest text that the pattern matches. -/
def wild (t : List Char) : List Char := (itemsOf t).flatMap PatternItem.fill

section Wild

variable {eqv : Char → Char → Bool} {s t : List Char}

theorem matchItems_fill (hrefl : ∀ c, eqv c c = true) (p : List PatternItem) (post : List Char) :
    matchItems eqv (p ++ [.any]) (p.flatMap PatternItem.fill ++ post) = true := by
  induction p with
  | nil => exact matchItems_any.mpr ⟨post, [], (List.append_nil post).symm, rfl⟩
  | cons i p ih =>
    cases i with
    | any => exact matchItems_any.mpr ⟨[], _, rfl, ih⟩
    | one => exact matchItems_one.mpr ⟨'x', _, rfl, ih⟩
    | char c => exact matchItems_char.mpr ⟨c, _, rfl, hrefl c, ih⟩

theorem like_wild (hrefl : ∀ c, eqv c c = true) (hend : endsEscaping t = false)
    (h : wild t <:+: s) : like eqv (some '\\') ('%' :: t ++ ['%']) s = true := by
  obtain ⟨pre, post, rfl⟩ := h
  rw [like_between, hend]
  exact matchItems_any.mpr ⟨pre, _, List.append_assoc _ _ _, matchItems_fill hrefl _ post⟩

theorem length_fill_le (escaped : Bool) (t : List Char) :
    ((scanPattern (some '\\') escaped t).1.flatMap PatternItem.fill).length ≤ t.length := by
  induction t generalizing escaped with
  | nil => cases escaped <;> exact Nat.le_refl 0
  | cons c t ih =>
    cases escaped with
    | true =>
      have := ih false
      simp only [scanPattern, List.flatMap_cons, List.length_append, PatternItem.fill,
        List.length_cons, List.length_nil]
      omega
    | false =>
      rw [scanPattern]
      split
      · have := ih true
        rw [List.length_cons]
        omega
      · have := ih false
        rw [List.flatMap_cons, List.length_append, List.length_cons]
        split
        · rw [PatternItem.fill, List.length_nil]
          omega
        · split
          · rw [PatternItem.fill, List.length_singleton]
            omega
          · rw [PatternItem.fill, List.length_singleton]
            omega

theorem length_wild_le (t : List Char) : (wild t).length ≤ t.length := length_fill_le false t

/-- The text found is shorter, or it has no special characters. -/
theorem wild_plain (h : t.length ≤ (wild t).length) : ∀ c ∈ wild t, special c = false := by
  unfold wild itemsOf at h ⊢
  induction t with
  | nil => exact fun c hc => (List.not_mem_nil hc).elim
  | cons c t ih =>
    have hle := length_fill_le false t
    have hle' := length_fill_le true t
    rw [scanPattern] at h ⊢
    split
    · rename_i hc
      rw [if_pos hc, List.length_cons] at h
      omega
    · rename_i hescape
      rw [if_neg hescape, List.flatMap_cons, List.length_append, List.length_cons] at h
      rw [List.flatMap_cons]
      split
      · rename_i hpercent
        rw [if_pos hpercent, PatternItem.fill, List.length_nil] at h
        omega
      · rename_i hpercent
        rw [if_neg hpercent] at h
        split
        · rename_i hunderscore
          rw [if_pos hunderscore, PatternItem.fill, List.length_singleton] at h
          intro d hd
          rcases List.mem_append.mp hd with hd | hd
          · obtain rfl := List.mem_singleton.mp hd
            decide
          · exact ih (by omega) d hd
        · rename_i hunderscore
          rw [if_neg hunderscore, PatternItem.fill, List.length_singleton] at h
          intro d hd
          rcases List.mem_append.mp hd with hd | hd
          · obtain rfl := List.mem_singleton.mp hd
            unfold special
            simp only [Bool.or_eq_false_iff, beq_eq_false_iff_ne]
            exact ⟨⟨hpercent, hunderscore⟩, fun he => hescape (congrArg some he.symm)⟩
          · exact ih (by omega) d hd

theorem wild_eq_self (h : ∀ c ∈ t, special c = false) : wild t = t := by
  unfold wild itemsOf
  rw [scan_plain h, List.flatMap_map]
  exact List.flatMap_singleton' t

end Wild

/-! ## Words -/

section Words

variable {eqv : Char → Char → Bool} {c : Char} {a m r s t : List Char}

theorem infix_append_cons (hc : c ∉ m) (h : m <:+: a ++ c :: r) : m <:+: a ∨ m <:+: r := by
  rcases List.infix_append_iff.mp h with h | h | ⟨m₁, m₂, rfl, hsuffix, hpre⟩
  · exact .inl h
  · rcases List.infix_cons_iff.mp h with hpre | h
    · cases m with
      | nil => exact .inl (List.nil_infix)
      | cons x m =>
        obtain ⟨rfl, -⟩ := List.cons_prefix_cons.mp hpre
        exact absurd List.mem_cons_self hc
    · exact .inr h
  · cases m₂ with
    | nil =>
      rw [List.append_nil]
      exact .inl hsuffix.isInfix
    | cons x m₂ =>
      obtain ⟨rfl, -⟩ := List.cons_prefix_cons.mp hpre
      exact absurd (List.mem_append_right _ List.mem_cons_self) hc

/-- The words, each with a space behind it. -/
def spaced (ws : List (List Char)) : List Char := ws.flatMap (· ++ [' '])

theorem infix_spaced {ws : List (List Char)} {w : List Char} (h : w ∈ ws) : w <:+: spaced ws := by
  obtain ⟨before, after, rfl⟩ := List.append_of_mem h
  refine ⟨spaced before, ' ' :: spaced after, ?_⟩
  simp [spaced]

theorem spaced_concat {ws : List (List Char)} (h : ws ≠ []) : ∃ pre, spaced ws = pre ++ [' '] := by
  refine ⟨spaced ws.dropLast ++ ws.getLast h, ?_⟩
  conv_lhs => rw [← List.dropLast_append_getLast h]
  simp [spaced]

/-- What has no space is found within one of the words. -/
theorem contains_word {ws : List (List Char)} (hne : t ≠ [])
    (hspace : ∀ c ∈ t, eqv c ' ' = false) (h : Contains eqv t (spaced ws)) :
    ∃ w ∈ ws, Contains eqv t w := by
  obtain ⟨mid, hmid, ht⟩ := h
  have hno : ' ' ∉ mid := by
    intro hmem
    obtain ⟨i, hi, heq⟩ := List.mem_iff_getElem.mp hmem
    have hlen := ht.length_eq
    have hrel := ht.get (by omega : i < t.length) hi
    simp only [List.get_eq_getElem, heq] at hrel
    rw [hspace _ (List.getElem_mem _)] at hrel
    cases hrel
  induction ws with
  | nil =>
    have hnil : mid = [] := List.infix_nil.mp hmid
    subst hnil
    cases ht
    exact absurd rfl hne
  | cons w ws ih =>
    have hcons : spaced (w :: ws) = w ++ ' ' :: spaced ws := by simp [spaced]
    rw [hcons] at hmid
    rcases infix_append_cons hno hmid with hw | hws
    · exact ⟨w, List.mem_cons_self, mid, hw, ht⟩
    · obtain ⟨w', hw', hcontains⟩ := ih hws
      exact ⟨w', List.mem_cons_of_mem _ hw', hcontains⟩

end Words

end Lyra.Lib
