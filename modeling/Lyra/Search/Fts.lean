import Mathlib.Data.List.Basic
import Lyra.Dav.Xml
import Lyra.Lib.Lines

/-!
# Full-text queries

`prepare_fts5_query` quotes every token of a user's query and joins them with `AND`.  The first
half of this file is the query language of FTS5 by itself: its tokens, its grammar, and when a
row matches.

* `lex_joined`: the tokens of what is prepared are the quoted texts with `AND` between them;
* `holds_of_plain`: whatever is read from quoted texts and `AND` is their conjunction;
* `prepared_denotes`: a prepared query is read, and only as the conjunction of its tokens.
-/

namespace Lyra.Search

/-! ## Tokens -/

inductive Token
  | string (s : Text)
  | word (s : Text)
  | and | or | not
  | lp | rp | lcp | rcp
  | colon | comma | plus | star | minus | caret
  deriving DecidableEq, Repr

def isSpace (c : Char) : Bool := c == ' ' || c == '\t' || c == '\n' || c == '\r'

/-- A character of a text without quotes. -/
def isBareword (c : Char) : Bool :=
  c.isAlphanum || c == '_' || c.toNat == 26 || 128 ≤ c.toNat

def punctuation : Char → Option Token
  | '(' => some .lp
  | ')' => some .rp
  | '{' => some .lcp
  | '}' => some .rcp
  | ':' => some .colon
  | ',' => some .comma
  | '+' => some .plus
  | '*' => some .star
  | '-' => some .minus
  | '^' => some .caret
  | _ => none

/-- The operators are words in capitals. -/
def wordToken (s : Text) : Token :=
  if s = ['A', 'N', 'D'] then .and
  else if s = ['O', 'R'] then .or
  else if s = ['N', 'O', 'T'] then .not
  else .word s

/-- What the characters so far have begun. -/
inductive LexState
  | between
  | string (s : Text)
  /-- After a quote inside a string: its end, unless another one follows. -/
  | quote (s : Text)
  | word (s : Text)
  deriving DecidableEq, Repr

/-- The first character after a token. -/
def enter (c : Char) : Option (List Token × LexState) :=
  if isSpace c then some ([], .between)
  else if c = '"' then some ([], .string [])
  else
    match punctuation c with
    | some t => some ([t], .between)
    | none => if isBareword c then some ([], .word [c]) else none

/-- The tokens that end before the character, and the state after it. -/
def lexStep : LexState → Char → Option (List Token × LexState)
  | .between, c => enter c
  | .string s, c => some ([], if c = '"' then .quote s else .string (s ++ [c]))
  | .quote s, c =>
    if c = '"' then some ([], .string (s ++ [c]))
    else (enter c).map fun x => (.string s :: x.1, x.2)
  | .word s, c =>
    if isBareword c then some ([], .word (s ++ [c]))
    else (enter c).map fun x => (wordToken s :: x.1, x.2)

/-- A string must be closed. -/
def lexEnd : LexState → Option (List Token)
  | .between => some []
  | .string _ => none
  | .quote s => some [.string s]
  | .word s => some [wordToken s]

def lexFrom : LexState → Text → Option (List Token)
  | st, [] => lexEnd st
  | st, c :: s =>
    match lexStep st c with
    | none => none
    | some (ts, st') => (lexFrom st' s).map (ts ++ ·)

def lex (s : Text) : Option (List Token) := lexFrom .between s

/-! ## Grammar -/

/-- Texts that stand one after the other, each with a mark for a beginning of a word. -/
abbrev Phrase := List (Text × Bool)

inductive Query
  | phrase (atStart : Bool) (p : Phrase)
  | near (ps : List Phrase) (distance : Nat)
  | columns (negated : Bool) (names : List Text) (q : Query)
  | and (q q' : Query)
  | or (q q' : Query)
  | not (q q' : Query)
  deriving Repr

def Token.text : Token → Option Text
  | .string s => some s
  | .word s => some s
  | _ => none

inductive ReadsPhrase : List Token → Phrase → Prop
  | text {t : Token} {s : Text} (h : t.text = some s) : ReadsPhrase [t] [(s, false)]
  | star {t : Token} {s : Text} (h : t.text = some s) : ReadsPhrase [t, .star] [(s, true)]
  | plus {l r : List Token} {p q : Phrase} (hl : ReadsPhrase l p) (hr : ReadsPhrase r q) :
    ReadsPhrase (l ++ .plus :: r) (p ++ q)

inductive ReadsPhrases : List Token → List Phrase → Prop
  | one {l : List Token} {p : Phrase} (h : ReadsPhrase l p) : ReadsPhrases l [p]
  | cons {l r : List Token} {p : Phrase} {ps : List Phrase} (hl : ReadsPhrase l p)
    (hr : ReadsPhrases r ps) : ReadsPhrases (l ++ r) (p :: ps)

inductive ReadsDistance : List Token → Nat → Prop
  | default : ReadsDistance [] 10
  | given {s : Text} {n : Nat} (h : (String.ofList s).toNat? = some n) :
    ReadsDistance [.comma, .word s] n

inductive ReadsNames : List Token → List Text → Prop
  | nil : ReadsNames [] []
  | cons {t : Token} {s : Text} {l : List Token} {ss : List Text} (h : t.text = some s)
    (hl : ReadsNames l ss) : ReadsNames (t :: l) (s :: ss)

/-- A column filter: its columns, and whether it excludes them. -/
inductive ReadsColumns : List Token → Bool → List Text → Prop
  | one {t : Token} {s : Text} (h : t.text = some s) : ReadsColumns [t] false [s]
  | braces {l : List Token} {ss : List Text} (h : ReadsNames l ss) :
    ReadsColumns (.lcp :: l ++ [.rcp]) false ss
  | minus {l : List Token} {ss : List Text} (h : ReadsColumns l false ss) :
    ReadsColumns (.minus :: l) true ss

/-- The readings of a list of tokens; which operator binds tighter is left open. -/
inductive Reads : List Token → Query → Prop
  | phrase {l : List Token} {p : Phrase} (h : ReadsPhrase l p) : Reads l (.phrase false p)
  | caret {l : List Token} {p : Phrase} (h : ReadsPhrase l p) :
    Reads (.caret :: l) (.phrase true p)
  | near {l d : List Token} {ps : List Phrase} {n : Nat} (hl : ReadsPhrases l ps)
    (hd : ReadsDistance d n) :
    Reads (.word ['N', 'E', 'A', 'R'] :: .lp :: (l ++ d ++ [.rp])) (.near ps n)
  | columns {c l : List Token} {negated : Bool} {ss : List Text} {q : Query}
    (hc : ReadsColumns c negated ss) (hl : Reads l q) :
    Reads (c ++ .colon :: l) (.columns negated ss q)
  | group {l : List Token} {q : Query} (h : Reads l q) : Reads (.lp :: l ++ [.rp]) q
  | implicit {l r : List Token} {q q' : Query} (hl : Reads l q) (hr : Reads r q') :
    Reads (l ++ r) (.and q q')
  | and {l r : List Token} {q q' : Query} (hl : Reads l q) (hr : Reads r q') :
    Reads (l ++ .and :: r) (.and q q')
  | or {l r : List Token} {q q' : Query} (hl : Reads l q) (hr : Reads r q') :
    Reads (l ++ .or :: r) (.or q q')
  | not {l r : List Token} {q q' : Query} (hl : Reads l q) (hr : Reads r q') :
    Reads (l ++ .not :: r) (.not q q')

/-- What a row has in a set of columns. -/
structure Row where
  phrase : (Text → Bool) → Bool → Phrase → Prop
  near : (Text → Bool) → List Phrase → Nat → Prop

/-- The row matches, in the columns of a set. -/
def Query.holds (row : Row) : (Text → Bool) → Query → Prop
  | cols, .phrase atStart p => row.phrase cols atStart p
  | cols, .near ps n => row.near cols ps n
  | cols, .columns negated ss q =>
    q.holds row fun c => cols c && (ss.contains c != negated)
  | cols, .and q q' => q.holds row cols ∧ q'.holds row cols
  | cols, .or q q' => q.holds row cols ∨ q'.holds row cols
  | cols, .not q q' => q.holds row cols ∧ ¬ q'.holds row cols

/-! ## Quoted texts joined by AND -/

/-- A quoted text or `AND`. -/
def Token.plain : Token → Prop
  | .string _ => True
  | .and => True
  | _ => False

/-- Every quoted text is in the row. -/
def AllIn (row : Row) (cols : Text → Bool) (ts : List Token) : Prop :=
  ∀ s, Token.string s ∈ ts → row.phrase cols false [(s, false)]

theorem allIn_append {row : Row} {cols : Text → Bool} {l r : List Token} :
    AllIn row cols (l ++ r) ↔ AllIn row cols l ∧ AllIn row cols r := by
  unfold AllIn
  constructor
  · intro h
    exact ⟨fun s hs => h s (List.mem_append_left r hs),
      fun s hs => h s (List.mem_append_right l hs)⟩
  · rintro ⟨hl, hr⟩ s hs
    rcases List.mem_append.mp hs with hs | hs
    · exact hl s hs
    · exact hr s hs

theorem allIn_and {row : Row} {cols : Text → Bool} {r : List Token} :
    AllIn row cols (.and :: r) ↔ AllIn row cols r := by
  unfold AllIn
  constructor
  · intro h s hs
    exact h s (List.mem_cons_of_mem _ hs)
  · intro h s hs
    rcases List.mem_cons.mp hs with hs | hs
    · cases hs
    · exact h s hs

theorem readsPhrase_plain {l : List Token} {p : Phrase} (h : ReadsPhrase l p)
    (hl : ∀ t ∈ l, t.plain) : ∃ s, l = [.string s] ∧ p = [(s, false)] := by
  cases h with
  | @text t s ht =>
    have hplain := hl t List.mem_cons_self
    cases t with
    | string s' =>
      obtain rfl := Option.some.inj ht
      exact ⟨s', rfl, rfl⟩
    | and => cases ht
    | _ => exact hplain.elim
  | star => exact (hl .star (by simp)).elim
  | plus => exact (hl .plus (by simp)).elim

/-- However such tokens are read, the row matches if it has all of them. -/
theorem holds_of_plain {ts : List Token} {q : Query} (h : Reads ts q) (hts : ∀ t ∈ ts, t.plain)
    (row : Row) (cols : Text → Bool) : q.holds row cols ↔ AllIn row cols ts := by
  induction h with
  | phrase hp =>
    obtain ⟨s, rfl, rfl⟩ := readsPhrase_plain hp hts
    constructor
    · intro hrow s' hs'
      obtain rfl := Token.string.inj (List.mem_singleton.mp hs')
      exact hrow
    · intro hall
      exact hall s List.mem_cons_self
  | caret => exact (hts .caret (by simp)).elim
  | near => exact (hts .lp (by simp)).elim
  | columns => exact (hts .colon (by simp)).elim
  | group => exact (hts .lp (by simp)).elim
  | implicit hl hr ihl ihr =>
    rw [Query.holds, ihl fun t ht => hts t (List.mem_append_left _ ht),
      ihr fun t ht => hts t (List.mem_append_right _ ht), allIn_append]
  | and hl hr ihl ihr =>
    have hright : ∀ t ∈ Token.and :: _, t.plain := fun t ht => hts t (List.mem_append_right _ ht)
    rw [Query.holds, ihl fun t ht => hts t (List.mem_append_left _ ht),
      ihr fun t ht => hright t (List.mem_cons_of_mem _ ht), allIn_append, allIn_and]
  | or => exact (hts .or (by simp)).elim
  | not => exact (hts .not (by simp)).elim

/-! ## The prepared query -/

/-- `str::split_whitespace`. -/
def splitWhitespace (s : Text) : List Text := (s.splitOnP isWhite).filter (!·.isEmpty)

theorem mem_splitWhitespace {s w : Text} (h : w ∈ splitWhitespace s) :
    w ≠ [] ∧ ∀ c ∈ w, isWhite c = false := by
  obtain ⟨hmem, hne⟩ := List.mem_filter.mp h
  exact ⟨by simpa using hne, Lib.mem_splitOnP hmem⟩

/-- Every quote doubled. -/
def escapeQuotes (s : Text) : Text := s.flatMap fun c => if c = '"' then ['"', '"'] else [c]

def quoteToken (s : Text) : Text := '"' :: escapeQuotes s ++ ['"']

def andText : Text := " AND ".toList

/-- `prepare_fts5_query`. -/
def prepareFts5Query (userQuery : Text) : Option Text :=
  let tokens := ((splitWhitespace userQuery).filter (!·.isEmpty)).map quoteToken
  if tokens.isEmpty then none else some (andText.intercalate tokens)

/-- The tokens of texts that are quoted and joined. -/
def joinedTokens : List Text → List Token
  | [] => []
  | [s] => [.string s]
  | s :: ss => .string s :: .and :: joinedTokens ss

theorem lexFrom_escape (s u rest : Text) :
    lexFrom (.string s) (escapeQuotes u ++ rest) = lexFrom (.string (s ++ u)) rest := by
  induction u generalizing s with
  | nil => rw [escapeQuotes, List.flatMap_nil, List.nil_append, List.append_nil]
  | cons c u ih =>
    have hcons : escapeQuotes (c :: u) = (if c = '"' then ['"', '"'] else [c]) ++ escapeQuotes u :=
      rfl
    have happend : s ++ c :: u = s ++ [c] ++ u := by rw [List.append_assoc, List.singleton_append]
    rw [hcons, List.append_assoc, happend, ← ih]
    split
    · rename_i hc
      subst hc
      simp [lexFrom, lexStep]
    · rename_i hc
      simp [lexFrom, lexStep, hc]

theorem lexFrom_quoteToken (s rest : Text) :
    lexFrom .between (quoteToken s ++ rest) = lexFrom (.quote s) rest := by
  have hopen : quoteToken s ++ rest = '"' :: (escapeQuotes s ++ '"' :: rest) := by
    simp [quoteToken]
  have hstep : ∀ t, lexFrom .between ('"' :: t) = lexFrom (.string []) t := by
    intro t
    simp [lexFrom, lexStep, enter, isSpace]
  rw [hopen, hstep, lexFrom_escape, List.nil_append]
  simp [lexFrom, lexStep]

theorem lexFrom_andText (s rest : Text) :
    lexFrom (.quote s) (andText ++ rest) =
      (lexFrom .between rest).map fun ts => .string s :: .and :: ts := by
  have htext : andText ++ rest = ' ' :: 'A' :: 'N' :: 'D' :: ' ' :: rest := rfl
  have hend : lexStep (.quote s) ' ' = some ([.string s], .between) := rfl
  have hA : lexStep .between 'A' = some ([], .word ['A']) := rfl
  have hN : lexStep (.word ['A']) 'N' = some ([], .word ['A', 'N']) := rfl
  have hD : lexStep (.word ['A', 'N']) 'D' = some ([], .word ['A', 'N', 'D']) := rfl
  have hword : lexStep (.word ['A', 'N', 'D']) ' ' = some ([.and], .between) := rfl
  rw [htext]
  simp only [lexFrom, hend, hA, hN, hD, hword]
  cases lexFrom .between rest with
  | none => rfl
  | some ts => rfl

/-- The prepared query is read token by token as it was quoted. -/
theorem lex_joined {ss : List Text} (hss : ss ≠ []) :
    lex (andText.intercalate (ss.map quoteToken)) = some (joinedTokens ss) := by
  unfold lex
  induction ss with
  | nil => exact absurd rfl hss
  | cons s ss ih =>
    cases ss with
    | nil =>
      have hone : andText.intercalate ([s].map quoteToken) = quoteToken s ++ [] := by
        simp [List.intercalate]
      rw [hone, lexFrom_quoteToken]
      rfl
    | cons s' ss =>
      have hcons : andText.intercalate ((s :: s' :: ss).map quoteToken) =
          quoteToken s ++ (andText ++ andText.intercalate ((s' :: ss).map quoteToken)) := by
        simp [List.intercalate]
      rw [hcons, lexFrom_quoteToken, lexFrom_andText, ih (List.cons_ne_nil _ _)]
      rfl

theorem plain_joinedTokens (ss : List Text) : ∀ t ∈ joinedTokens ss, t.plain := by
  induction ss with
  | nil => exact fun t ht => (List.not_mem_nil ht).elim
  | cons s ss ih =>
    cases ss with
    | nil =>
      intro t ht
      obtain rfl := List.mem_singleton.mp ht
      trivial
    | cons s' ss =>
      intro t ht
      rcases List.mem_cons.mp ht with rfl | ht
      · trivial
      · rcases List.mem_cons.mp ht with rfl | ht
        · trivial
        · exact ih t ht

theorem mem_joinedTokens {ss : List Text} {s : Text} : .string s ∈ joinedTokens ss ↔ s ∈ ss := by
  induction ss with
  | nil => exact ⟨fun h => (List.not_mem_nil h).elim, fun h => (List.not_mem_nil h).elim⟩
  | cons s' ss ih =>
    cases ss with
    | nil => simp [joinedTokens]
    | cons s'' ss =>
      rw [joinedTokens, List.mem_cons, List.mem_cons, ih, List.mem_cons (b := s')]
      · simp
      · exact List.cons_ne_nil _ _

theorem reads_joinedTokens {ss : List Text} (hss : ss ≠ []) : ∃ q, Reads (joinedTokens ss) q := by
  induction ss with
  | nil => exact absurd rfl hss
  | cons s ss ih =>
    have hfirst : Reads [.string s] (.phrase false [(s, false)]) := .phrase (.text rfl)
    cases ss with
    | nil => exact ⟨_, hfirst⟩
    | cons s' ss =>
      obtain ⟨q, hq⟩ := ih (List.cons_ne_nil _ _)
      exact ⟨_, .and hfirst hq⟩

/-- Every query of at least one token is read, and whatever it is read as means that each token
is in the row as a phrase; the others are refused. -/
theorem prepared_denotes (userQuery : Text) :
    (splitWhitespace userQuery = [] ∧ prepareFts5Query userQuery = none) ∨
      ∃ e ts, prepareFts5Query userQuery = some e ∧ lex e = some ts ∧ (∃ q, Reads ts q) ∧
        ∀ q, Reads ts q → ∀ row cols, q.holds row cols ↔
          ∀ s ∈ splitWhitespace userQuery, row.phrase cols false [(s, false)] := by
  have hfilter : (splitWhitespace userQuery).filter (!·.isEmpty) = splitWhitespace userQuery := by
    unfold splitWhitespace
    rw [List.filter_filter]
    simp
  unfold prepareFts5Query
  rw [hfilter]
  cases hss : splitWhitespace userQuery with
  | nil => exact .inl ⟨rfl, rfl⟩
  | cons s ss =>
    refine .inr ⟨_, joinedTokens (s :: ss), rfl, lex_joined (List.cons_ne_nil _ _),
      reads_joinedTokens (List.cons_ne_nil _ _), fun q hq row cols => ?_⟩
    rw [holds_of_plain hq (plain_joinedTokens _)]
    unfold AllIn
    simp only [mem_joinedTokens]

end Lyra.Search
