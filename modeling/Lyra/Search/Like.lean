import Lyra.Lib.Like
import Lyra.Search.Fts

/-!
# The search without an index

For a query with characters outside ASCII, `search_message_ids` asks `LIKE` of SQLite or `ILIKE`
of PostgreSQL instead of the full-text index.  The two statements differ in the escaping of the
tokens; the PostgreSQL one is moreover written with `?` for its parameters, and its ids are read
as texts.

* `likeAgree_iff`: when both find the messages that contain every token;
* `underscore_disagrees`: an underscore stands for any character in PostgreSQL.
-/

namespace Lyra.Search

open Lyra.Lib

/-! ## Messages -/

/-- A message as far as the search reads it. -/
structure MessageRow where
  id : Text
  user : Text
  account : Text
  folder : Text
  isDeleted : Bool
  subject : Option Text
  snippet : Option Text
  bodyText : Option Text
  fromAddress : Option Text
  deriving DecidableEq, Repr

inductive Column
  | subject | snippet | bodyText | fromAddress
  deriving DecidableEq, Repr

def Column.value (m : MessageRow) : Column → Option Text
  | subject => m.subject
  | snippet => m.snippet
  | bodyText => m.bodyText
  | fromAddress => m.fromAddress

/-- `COLUMNS`. -/
def searchColumns : List Column := [.subject, .snippet, .bodyText, .fromAddress]

/-- Whose messages are searched, and where. -/
structure Scope where
  user : Text
  account : Option Text
  folder : Option Text
  deriving DecidableEq, Repr

def Scope.admits (scope : Scope) (m : MessageRow) : Bool :=
  m.user == scope.user && !m.isDeleted && scope.account.all (m.account == ·) &&
    scope.folder.all (m.folder == ·)

/-! ## The two statements -/

/-- One comparison; `LIKE` comes with its escape character. -/
inductive LikeOp
  | like (escape : Char)
  | ilike
  deriving DecidableEq, Repr

structure LikeTest where
  column : Column
  op : LikeOp
  pattern : Text
  deriving DecidableEq, Repr

inductive SearchError
  | invalidQuery
  | database
  deriving DecidableEq, Repr

/-- PostgreSQL behind its driver.  Its lower case folds ASCII letters at least. -/
structure Postgres where
  /-- A `?` in a statement is taken for a parameter. -/
  questionMarks : Bool
  /-- The id column read as a text. -/
  idText : Text → Option Text
  lower : Char → Char
  lower_ascii : ∀ a b : Char, a.toLower = b.toLower → lower a = lower b
  lower_space : lower '%' ≠ lower ' '

/-- `LIKE` folds ASCII letters only. -/
def sameAscii (a b : Char) : Bool := a.toLower == b.toLower

def Postgres.same (pg : Postgres) (a b : Char) : Bool := pg.lower a == pg.lower b

def tokensOf (query : Text) : List Text := (splitWhitespace query).filter (!·.isEmpty)

/-- `replace` of one character. -/
def replaceChar (c : Char) (by' s : Text) : Text := s.flatMap fun x => if x = c then by' else [x]

def escapeToken (token : Text) : Text :=
  replaceChar '_' ['\\', '_'] (replaceChar '%' ['\\', '%'] (replaceChar '\\' ['\\', '\\'] token))

/-- One group of comparisons for each token. -/
def sqliteConditions (tokens : List Text) : List (List LikeTest) :=
  tokens.map fun token =>
    searchColumns.map fun c => ⟨c, .like '\\', '%' :: escapeToken token ++ ['%']⟩

def postgresConditions (tokens : List Text) : List (List LikeTest) :=
  tokens.map fun token => searchColumns.map fun c => ⟨c, .ilike, '%' :: token ++ ['%']⟩

/-- The comparison of an engine; a `NULL` is not like anything. -/
def LikeTest.holds (sameLike sameIlike : Char → Char → Bool) (m : MessageRow) (t : LikeTest) :
    Bool :=
  (t.column.value m).any fun s =>
    match t.op with
    | .like escape => like sameLike (some escape) t.pattern s
    | .ilike => like sameIlike (some '\\') t.pattern s

def holdsAll (sameLike sameIlike : Char → Char → Bool) (groups : List (List LikeTest))
    (m : MessageRow) : Bool :=
  groups.all fun group => group.any (·.holds sameLike sameIlike m)

section Branches

variable (sort : List MessageRow → List MessageRow) (rows : List MessageRow) (query : Text)
  (scope : Scope) (limit : Nat)

/-- `sqlite_like_search_message_ids`; `sort` is by date, the latest first. -/
def sqliteLikeSearchMessageIds : Except SearchError (List Text) :=
  let tokens := tokensOf query
  if tokens.isEmpty then .error .invalidQuery
  else
    let found := rows.filter fun m =>
      scope.admits m && holdsAll sameAscii sameAscii (sqliteConditions tokens) m
    .ok (((sort found).take limit).map fun m => m.id)

/-- `postgres_like_search_message_ids`. -/
def postgresLikeSearchMessageIds (pg : Postgres) : Except SearchError (List Text) :=
  let tokens := tokensOf query
  if tokens.isEmpty then .error .invalidQuery
  else if pg.questionMarks then
    let found := rows.filter fun m =>
      scope.admits m && holdsAll sameAscii pg.same (postgresConditions tokens) m
    .ok (((sort found).take limit).map fun m => (pg.idText m.id).getD [])
  else .error .database

end Branches

/-! ## Agreement -/

/-- Every token is in a searched column, up to the case of ASCII letters. -/
def HasTokens (query : Text) (m : MessageRow) : Prop :=
  ∀ t ∈ tokensOf query, ∃ c ∈ searchColumns, ∃ s, c.value m = some s ∧ Contains sameAscii t s

/-- The ids of the messages that have the tokens. -/
def FindsTokens (rows : List MessageRow) (scope : Scope) (query : Text) (ids : List Text) : Prop :=
  ∀ id, id ∈ ids ↔ ∃ m ∈ rows, scope.admits m = true ∧ HasTokens query m ∧ m.id = id

/-- Whatever is stored: where no more messages than the limit have the tokens, both branches
find them; a query without tokens is refused by both. -/
def LikeAgree (pg : Postgres) (query : Text) : Prop :=
  ∀ (sort sort' : List MessageRow → List MessageRow), (∀ l, (sort l).Perm l) →
    (∀ l, (sort' l).Perm l) → ∀ (rows : List MessageRow) (scope : Scope) (limit : Nat),
    (∀ ms : List MessageRow, ms.Sublist rows → (∀ m ∈ ms, scope.admits m = true ∧ HasTokens query m) →
      ms.length ≤ limit) →
    (tokensOf query = [] ∧
      sqliteLikeSearchMessageIds sort rows query scope limit = .error .invalidQuery ∧
      postgresLikeSearchMessageIds sort' rows query scope limit pg = .error .invalidQuery) ∨
    ∃ ids ids', sqliteLikeSearchMessageIds sort rows query scope limit = .ok ids ∧
      postgresLikeSearchMessageIds sort' rows query scope limit pg = .ok ids' ∧
      FindsTokens rows scope query ids ∧ FindsTokens rows scope query ids'

/-- No character of the token means anything in a pattern, and lower case in PostgreSQL
identifies it with nothing but its ASCII case. -/
def Postgres.PlainToken (pg : Postgres) (t : Text) : Prop :=
  ∀ c ∈ t, special c = false ∧ ∀ x, pg.lower x = pg.lower c → x.toLower = c.toLower

section Conditions

variable {pg : Postgres} {query : Text} {m : MessageRow}

theorem escapeToken_eq (t : Text) : escapeToken t = escapeLike t := by
  unfold escapeToken replaceChar escapeLike
  rw [List.flatMap_assoc, List.flatMap_assoc]
  congr 1
  funext c
  rcases Decidable.em (c = '\\') with rfl | hescape
  · rfl
  · rcases Decidable.em (c = '%') with rfl | hpercent
    · rfl
    · rcases Decidable.em (c = '_') with rfl | hunderscore
      · rfl
      · simp [special, hescape, hpercent, hunderscore]

theorem mem_tokensOf {t : Text} (h : t ∈ tokensOf query) :
    t ≠ [] ∧ ∀ c ∈ t, isWhite c = false :=
  mem_splitWhitespace (List.mem_filter.mp h).1

theorem sqlite_holds_iff :
    holdsAll sameAscii sameAscii (sqliteConditions (tokensOf query)) m = true ↔
      HasTokens query m := by
  unfold holdsAll sqliteConditions HasTokens
  simp only [List.all_map, List.all_eq_true, Function.comp_apply, List.any_map, List.any_eq_true,
    LikeTest.holds, Option.any_eq_true, escapeToken_eq, like_escaped]

theorem postgres_holds_iff :
    holdsAll sameAscii pg.same (postgresConditions (tokensOf query)) m = true ↔
      ∀ t ∈ tokensOf query, ∃ c ∈ searchColumns, ∃ s, c.value m = some s ∧
        like pg.same (some '\\') ('%' :: t ++ ['%']) s = true := by
  unfold holdsAll postgresConditions
  simp only [List.all_map, List.all_eq_true, Function.comp_apply, List.any_map, List.any_eq_true,
    LikeTest.holds, Option.any_eq_true]

theorem same_refl (pg : Postgres) (c : Char) : pg.same c c = true := beq_self_eq_true _

theorem same_of_ascii {a b : Char} (h : sameAscii a b = true) : pg.same a b = true :=
  beq_iff_eq.mpr (pg.lower_ascii a b (beq_iff_eq.mp h))

theorem contains_refl {eqv : Char → Char → Bool} (hrefl : ∀ c, eqv c c = true) {t s : Text}
    (h : t <:+: s) : Contains eqv t s :=
  ⟨t, h, List.forall₂_same.mpr fun c _ => hrefl c⟩

theorem plain_contains_iff {t s : Text} (h : pg.PlainToken t) :
    Contains pg.same t s ↔ Contains sameAscii t s := by
  constructor
  · rintro ⟨mid, hmid, ht⟩
    refine ⟨mid, hmid, ?_⟩
    clear hmid
    induction ht with
    | nil => exact .nil
    | @cons a b t mid hab hrest ih =>
      have hlower : pg.lower b = pg.lower a := (beq_iff_eq.mp hab).symm
      have hascii := (h a List.mem_cons_self).2 b hlower
      exact .cons (beq_iff_eq.mpr hascii.symm) (ih fun c hc => h c (List.mem_cons_of_mem _ hc))
  · rintro ⟨mid, hmid, ht⟩
    exact ⟨mid, hmid, ht.imp fun _ _ => same_of_ascii⟩

theorem postgres_plain_iff (h : ∀ t ∈ tokensOf query, pg.PlainToken t) :
    holdsAll sameAscii pg.same (postgresConditions (tokensOf query)) m = true ↔
      HasTokens query m := by
  rw [postgres_holds_iff]
  unfold HasTokens
  refine forall₂_congr fun t ht => ?_
  refine exists_congr fun c => and_congr_right fun _ => exists_congr fun s =>
    and_congr_right fun _ => ?_
  rw [like_plain fun c hc => (h t ht c hc).1, plain_contains_iff (h t ht)]

end Conditions

/-! ## Plain tokens are enough -/

section Enough

variable {pg : Postgres} {query : Text} {rows : List MessageRow} {scope : Scope} {limit : Nat}
  {sort : List MessageRow → List MessageRow} {holds : MessageRow → Bool} {idOf : Text → Text}

/-- A branch that keeps the messages with the tokens and reports their ids finds them. -/
theorem findsTokens_of_filter (hsort : ∀ l, (sort l).Perm l)
    (hholds : ∀ m, holds m = true ↔ HasTokens query m) (hid : ∀ id, idOf id = id)
    (hlimit : ∀ ms : List MessageRow, ms.Sublist rows →
      (∀ m ∈ ms, scope.admits m = true ∧ HasTokens query m) → ms.length ≤ limit) :
    FindsTokens rows scope query
      (((sort (rows.filter fun m => scope.admits m && holds m)).take limit).map
        fun m => idOf m.id) := by
  have hmem : ∀ m, m ∈ rows.filter (fun m => scope.admits m && holds m) ↔
      m ∈ rows ∧ scope.admits m = true ∧ HasTokens query m := by
    intro m
    rw [List.mem_filter, Bool.and_eq_true, hholds]
  have hlength : (rows.filter fun m => scope.admits m && holds m).length ≤ limit :=
    hlimit _ List.filter_sublist fun m hm => ((hmem m).mp hm).2
  have hsorted : (sort (rows.filter fun m => scope.admits m && holds m)).length ≤ limit := by
    rw [(hsort _).length_eq]
    exact hlength
  rw [List.take_of_length_le hsorted]
  intro id
  simp only [List.mem_map, (hsort _).mem_iff, hmem, hid]
  constructor
  · rintro ⟨m, ⟨hm, hadmits, htokens⟩, rfl⟩
    exact ⟨m, hm, hadmits, htokens, rfl⟩
  · rintro ⟨m, hm, hadmits, htokens, rfl⟩
    exact ⟨m, ⟨hm, hadmits, htokens⟩, rfl⟩

theorem agree_of_plain (hmarks : pg.questionMarks = true) (hid : ∀ id, (pg.idText id).getD [] = id)
    (hplain : ∀ t ∈ tokensOf query, pg.PlainToken t) (hne : tokensOf query ≠ []) :
    LikeAgree pg query := by
  intro sort sort' hsort hsort' rows scope limit hlimit
  have hempty : (tokensOf query).isEmpty = false := by simpa using hne
  refine .inr ⟨_, _, ?_, ?_,
    findsTokens_of_filter hsort (fun m => sqlite_holds_iff) (fun _ => rfl) hlimit,
    findsTokens_of_filter hsort' (fun m => postgres_plain_iff hplain) hid hlimit⟩
  · unfold sqliteLikeSearchMessageIds
    simp only [hempty]
    rfl
  · unfold postgresLikeSearchMessageIds
    simp only [hempty, hmarks]
    rfl

theorem agree_of_no_token (h : tokensOf query = []) : LikeAgree pg query := by
  intro sort sort' _ _ rows scope limit _
  refine .inl ⟨h, ?_, ?_⟩
  · unfold sqliteLikeSearchMessageIds
    rw [h]
    rfl
  · unfold postgresLikeSearchMessageIds
    rw [h]
    rfl

end Enough

/-! ## They are needed -/

/-- A message with a subject and nothing else. -/
def withSubject (id s : Text) : MessageRow where
  id := id
  user := []
  account := []
  folder := []
  isDeleted := false
  subject := some s
  snippet := none
  bodyText := none
  fromAddress := none

section Needed

variable {pg : Postgres} {query s : Text}

theorem hasTokens_withSubject {id : Text} :
    HasTokens query (withSubject id s) ↔ ∀ t ∈ tokensOf query, Contains sameAscii t s := by
  unfold HasTokens
  refine forall₂_congr fun t _ => ?_
  constructor
  · rintro ⟨c, -, u, hu, hcontains⟩
    cases c with
    | subject =>
      obtain rfl := Option.some.inj hu
      exact hcontains
    | snippet => cases hu
    | bodyText => cases hu
    | fromAddress => cases hu
  · intro h
    exact ⟨.subject, List.mem_cons_self, s, rfl, h⟩

theorem postgres_withSubject {id : Text} :
    holdsAll sameAscii pg.same (postgresConditions (tokensOf query)) (withSubject id s) = true ↔
      ∀ t ∈ tokensOf query, like pg.same (some '\\') ('%' :: t ++ ['%']) s = true := by
  rw [postgres_holds_iff]
  refine forall₂_congr fun t _ => ?_
  constructor
  · rintro ⟨c, -, u, hu, hlike⟩
    cases c with
    | subject =>
      obtain rfl := Option.some.inj hu
      exact hlike
    | snippet => cases hu
    | bodyText => cases hu
    | fromAddress => cases hu
  · intro h
    exact ⟨.subject, List.mem_cons_self, s, rfl, h⟩

/-- What agreement means where one message is stored. -/
theorem agree_one (h : LikeAgree pg query) (hne : tokensOf query ≠ []) (id : Text) :
    pg.questionMarks = true ∧
      (HasTokens query (withSubject id s) →
        holdsAll sameAscii pg.same (postgresConditions (tokensOf query)) (withSubject id s) = true ∧
          (pg.idText id).getD [] = id) ∧
      (holdsAll sameAscii pg.same (postgresConditions (tokensOf query)) (withSubject id s) = true →
        (pg.idText id).getD [] = id → HasTokens query (withSubject id s)) := by
  have hempty : (tokensOf query).isEmpty = false := by simpa using hne
  have hadmits : (Scope.mk [] none none).admits (withSubject id s) = true := rfl
  rcases h (fun l => l) (fun l => l) (fun l => .refl l) (fun l => .refl l) [withSubject id s]
      ⟨[], none, none⟩ 1 fun ms hms _ => hms.length_le with
    ⟨hnil, -, -⟩ | ⟨ids, ids', -, hpg, -, hfinds⟩
  · exact absurd hnil hne
  · unfold postgresLikeSearchMessageIds at hpg
    simp only [hempty] at hpg
    cases hmarks : pg.questionMarks with
    | false =>
      rw [hmarks] at hpg
      cases hpg
    | true =>
      rw [hmarks] at hpg
      obtain rfl := Except.ok.inj hpg
      refine ⟨rfl, fun htokens => ?_, fun hholds hid => ?_⟩
      · have hmem := (hfinds id).mpr ⟨_, List.mem_singleton_self _, hadmits, htokens, rfl⟩
        simp only [List.mem_map] at hmem
        obtain ⟨m, hm, hid⟩ := hmem
        obtain ⟨hsingle, hfilter⟩ := List.mem_filter.mp (List.mem_of_mem_take hm)
        obtain rfl := List.mem_singleton.mp hsingle
        rw [Bool.and_eq_true] at hfilter
        exact ⟨hfilter.2, hid⟩
      · have hfilter : [withSubject id s].filter (fun m => (Scope.mk [] none none).admits m &&
            holdsAll sameAscii pg.same (postgresConditions (tokensOf query)) m) =
            [withSubject id s] := by
          rw [List.filter_cons, if_pos (by rw [hadmits, hholds]; rfl), List.filter_nil]
        have hmem : id ∈ List.map (fun m : MessageRow => (pg.idText m.id).getD [])
            (List.take 1 [withSubject id s]) := by
          rw [List.take_succ_cons, List.map_cons]
          exact List.mem_cons.mpr (.inl hid.symm)
        rw [hfilter] at hfinds
        obtain ⟨m, hm, -, htokens, -⟩ := (hfinds id).mp hmem
        obtain rfl := List.mem_singleton.mp hm
        exact htokens

theorem sameAscii_refl (c : Char) : sameAscii c c = true := beq_self_eq_true _

theorem toLower_of_not_upper {c : Char} (h : c.isUpper = false) : c.toLower = c := by
  unfold Char.toLower
  exact dif_neg (of_decide_eq_false h)

theorem isLower_toLower {c : Char} (h : c.isUpper = true) : c.toLower.isLower = true := by
  have hrange : c.val ≥ 'A'.val ∧ c.val ≤ 'Z'.val := of_decide_eq_true h
  have hA : 65 ≤ c.val.toNat := hrange.1
  have hZ : c.val.toNat ≤ 90 := hrange.2
  have hshift : ('a'.val - 'A'.val).toNat = 32 := rfl
  have hval : (c.val + ('a'.val - 'A'.val)).toNat = c.val.toNat + 32 := by
    rw [UInt32.toNat_add, hshift]
    exact Nat.mod_eq_of_lt (by omega)
  have hlow : (97 : Nat) ≤ (c.val + ('a'.val - 'A'.val)).toNat := by omega
  have hhigh : (c.val + ('a'.val - 'A'.val)).toNat ≤ 122 := by omega
  unfold Char.toLower
  delta Char.isLower
  rw [dif_pos hrange, Bool.and_eq_true, decide_eq_true_iff, decide_eq_true_iff]
  exact ⟨hlow, hhigh⟩

theorem eq_of_sameAscii {a b : Char} (hb : b.isAlpha = false) (h : sameAscii a b = true) :
    a = b := by
  have hupper : b.isUpper = false := (Bool.or_eq_false_iff.mp hb).1
  have hlower : b.isLower = false := (Bool.or_eq_false_iff.mp hb).2
  have hab : a.toLower = b := (beq_iff_eq.mp h).trans (toLower_of_not_upper hupper)
  cases ha : a.isUpper with
  | true =>
    have hcontra := isLower_toLower ha
    rw [hab, hlower] at hcontra
    cases hcontra
  | false => exact (toLower_of_not_upper ha).symm.trans hab

theorem token_space {t : Text} (ht : t ∈ tokensOf query) : ∀ c ∈ t, sameAscii c ' ' = false := by
  intro c hc
  rw [← Bool.not_eq_true]
  intro hsame
  obtain rfl := eq_of_sameAscii (by decide) hsame
  exact absurd ((mem_tokensOf ht).2 _ hc) (by decide)

theorem hasTokens_spaced (id : Text) : HasTokens query (withSubject id (spaced (tokensOf query))) :=
  hasTokens_withSubject.mpr fun _ ht => contains_refl sameAscii_refl (infix_spaced ht)

/-- The literal tokens with a space behind each: no `%` at the end. -/
theorem not_endsEscaping (h : LikeAgree pg query) (hne : tokensOf query ≠ []) :
    ∀ t ∈ tokensOf query, endsEscaping t = false := by
  intro t ht
  rw [← Bool.not_eq_true]
  intro hend
  obtain ⟨hholds, -⟩ := (agree_one h hne []).2.1 (hasTokens_spaced [])
  obtain ⟨pre, c, hs, hc⟩ := like_endsEscaping hend (postgres_withSubject.mp hholds t ht)
  obtain ⟨pre', hspaced⟩ := spaced_concat hne
  have hlast : c = ' ' := by
    have heq := hs.symm.trans hspaced
    exact List.singleton_inj.mp (List.append_inj_right' heq rfl)
  exact absurd (beq_iff_eq.mp (hlast ▸ hc)) pg.lower_space

/-- A special character is only found as itself. -/
theorem special_of_contains {t u : Text} (h : Contains sameAscii t u)
    (hu : ∀ c ∈ u, special c = false) : ∀ c ∈ t, special c = false := by
  obtain ⟨mid, hmid, ht⟩ := h
  have hplain : ∀ c ∈ mid, special c = false := fun c hc => hu c (hmid.mem hc)
  clear hmid
  induction ht with
  | nil => exact fun c hc => (List.not_mem_nil hc).elim
  | @cons a b t mid hab hrest ih =>
    intro c hc
    rcases List.mem_cons.mp hc with rfl | hc
    · rw [← Bool.not_eq_true]
      intro hspecial
      have hsame : sameAscii b c = true := beq_iff_eq.mpr (beq_iff_eq.mp hab).symm
      have halpha : c.isAlpha = false := by
        unfold special at hspecial
        simp only [Bool.or_eq_true, beq_iff_eq] at hspecial
        rcases hspecial with (rfl | rfl) | rfl
        · decide
        · decide
        · decide
      have hb := hplain b List.mem_cons_self
      rw [eq_of_sameAscii halpha hsame, hspecial] at hb
      cases hb
    · exact ih (fun d hd => hplain d (List.mem_cons_of_mem _ hd)) c hc

theorem exists_length_le (ts : List Text) : ∃ n, ∀ t ∈ ts, t.length ≤ n := by
  induction ts with
  | nil => exact ⟨0, fun t ht => (List.not_mem_nil ht).elim⟩
  | cons u ts ih =>
    obtain ⟨n, hn⟩ := ih
    refine ⟨max u.length n, fun t ht => ?_⟩
    rcases List.mem_cons.mp ht with rfl | ht
    · exact Nat.le_max_left _ _
    · exact Nat.le_trans (hn t ht) (Nat.le_max_right _ _)

/-- Texts that only the patterns find, spaced: a longest token with a special character is not
among them. -/
theorem no_special (h : LikeAgree pg query) (hne : tokensOf query ≠ []) :
    ∀ t ∈ tokensOf query, ∀ c ∈ t, special c = false := by
  have hends := not_endsEscaping h hne
  have hids := ((agree_one h hne []).2.1 (hasTokens_spaced [])).2
  have hwild : ∀ t ∈ tokensOf query, ∃ t' ∈ tokensOf query, Contains sameAscii t (wild t') := by
    have hholds : holdsAll sameAscii pg.same (postgresConditions (tokensOf query))
        (withSubject [] (spaced ((tokensOf query).map wild))) = true :=
      postgres_withSubject.mpr fun t ht =>
        like_wild (same_refl pg) (hends t ht) (infix_spaced (List.mem_map_of_mem ht))
    intro t ht
    have hcontains := hasTokens_withSubject.mp ((agree_one h hne []).2.2 hholds hids) t ht
    obtain ⟨w, hw, hcontains⟩ := contains_word (mem_tokensOf ht).1 (token_space ht) hcontains
    obtain ⟨t', ht', rfl⟩ := List.mem_map.mp hw
    exact ⟨t', ht', hcontains⟩
  have hlength : ∀ {t u : Text}, Contains sameAscii t u → t.length ≤ u.length := by
    rintro t u ⟨mid, hmid, ht⟩
    rw [ht.length_eq]
    exact hmid.length_le
  -- by induction on how much longer a token can get
  obtain ⟨n, hn⟩ := exists_length_le (tokensOf query)
  have hstep : ∀ k, ∀ t ∈ tokensOf query, n - t.length ≤ k → ∀ c ∈ t, special c = false := by
    intro k
    induction k with
    | zero =>
      intro t ht hk
      obtain ⟨t', ht', hcontains⟩ := hwild t ht
      have hle := hlength hcontains
      have hle' := hn t' ht'
      exact special_of_contains hcontains (wild_plain (by omega))
    | succ k ih =>
      intro t ht hk
      obtain ⟨t', ht', hcontains⟩ := hwild t ht
      have hle := hlength hcontains
      have hwildle := length_wild_le t'
      rcases Nat.lt_or_ge (wild t').length t'.length with hlt | hge
      · have hplain := ih t' ht' (by omega)
        have hself : wild t' = t' := wild_eq_self hplain
        rw [hself] at hlt
        omega
      · exact special_of_contains hcontains (wild_plain hge)
  exact fun t ht => hstep n t ht (Nat.sub_le _ _)

/-- The tokens with one character in another case. -/
theorem no_other_case (h : LikeAgree pg query) (hne : tokensOf query ≠ []) {t : Text}
    (ht : t ∈ tokensOf query) {c x : Char} (hc : c ∈ t) (hx : pg.lower x = pg.lower c) :
    x.toLower = c.toLower := by
  have hplain := no_special h hne
  have hids := ((agree_one h hne []).2.1 (hasTokens_spaced [])).2
  by_contra hcase
  let other : Char → Char := fun d => if pg.lower d = pg.lower c then x else d
  have hother : ∀ d, pg.same d (other d) = true := by
    intro d
    unfold Postgres.same other
    split
    · rename_i hd
      rw [hx, hd]
      exact beq_self_eq_true _
    · exact beq_self_eq_true _
  have hholds : holdsAll sameAscii pg.same (postgresConditions (tokensOf query))
      (withSubject [] (spaced ((tokensOf query).map (List.map other)))) = true := by
    refine postgres_withSubject.mpr fun t' ht' => (like_plain (hplain t' ht')).mpr ?_
    refine ⟨t'.map other, infix_spaced (List.mem_map_of_mem ht'), ?_⟩
    rw [List.forall₂_map_right_iff, List.forall₂_same]
    exact fun d _ => hother d
  have hcontains := hasTokens_withSubject.mp ((agree_one h hne []).2.2 hholds hids) t ht
  obtain ⟨w, hw, mid, hmid, hsame⟩ :=
    contains_word (mem_tokensOf ht).1 (token_space ht) hcontains
  obtain ⟨t', ht', rfl⟩ := List.mem_map.mp hw
  obtain ⟨i, hi, rfl⟩ := List.mem_iff_getElem.mp hc
  have hi' : i < mid.length := hsame.length_eq ▸ hi
  have hmem : mid[i] ∈ t'.map other := hmid.mem (List.getElem_mem hi')
  have hascii : t[i].toLower = mid[i].toLower := beq_iff_eq.mp (hsame.get hi hi')
  obtain ⟨d, -, hd⟩ := List.mem_map.mp hmem
  rw [← hd] at hascii
  unfold other at hascii
  split at hascii
  · exact hcase hascii.symm
  · rename_i hlower
    exact hlower (pg.lower_ascii _ _ hascii).symm

end Needed

/-- Both branches find the messages with the tokens exactly where the driver takes `?` for a
parameter and a text for an id, and every token is plain. -/
theorem likeAgree_iff (pg : Postgres) (query : Text) :
    LikeAgree pg query ↔ tokensOf query = [] ∨
      (pg.questionMarks = true ∧ (∀ id, (pg.idText id).getD [] = id) ∧
        ∀ t ∈ tokensOf query, pg.PlainToken t) := by
  constructor
  · intro h
    rcases Decidable.em (tokensOf query = []) with hnil | hne
    · exact .inl hnil
    · exact .inr ⟨(agree_one (s := []) h hne []).1,
        fun id => ((agree_one h hne id).2.1 (hasTokens_spaced id)).2,
        fun t ht c hc => ⟨no_special h hne t ht c hc, fun x hx => no_other_case h hne ht hc hx⟩⟩
  · rintro (hnil | ⟨hmarks, hids, hplain⟩)
    · exact agree_of_no_token hnil
    · rcases Decidable.em (tokensOf query = []) with hnil | hne
      · exact agree_of_no_token hnil
      · exact agree_of_plain hmarks hids hplain hne

/-- A driver that would take the statement as it is written. -/
def lenient : Postgres where
  questionMarks := true
  idText := some
  lower := Char.toLower
  lower_ascii := fun _ _ h => h
  lower_space := by decide

/-- The driver as it is: parameters are numbered and ids are not texts. -/
def strict : Postgres := { lenient with questionMarks := false, idText := fun _ => none }

/-- A query of one token, and a message in which a character stands for its underscore. -/
def invoiceQuery : Text := "发票_1".toList

theorem underscore_disagrees : ¬ LikeAgree lenient invoiceQuery ∧ ¬ LikeAgree strict invoiceQuery := by
  have htokens : tokensOf invoiceQuery = [invoiceQuery] := by decide
  have hnone : sqliteLikeSearchMessageIds (fun l => l) [withSubject ['m'] "发票A1".toList]
      invoiceQuery ⟨[], none, none⟩ 1 = .ok [] := by decide
  constructor
  · intro h
    have hfound : postgresLikeSearchMessageIds (fun l => l) [withSubject ['m'] "发票A1".toList]
        invoiceQuery ⟨[], none, none⟩ 1 lenient = .ok [['m']] := by decide
    rcases h (fun l => l) (fun l => l) (fun l => .refl l) (fun l => .refl l)
        [withSubject ['m'] "发票A1".toList] ⟨[], none, none⟩ 1 fun ms hms _ => hms.length_le with
      ⟨hnil, -, -⟩ | ⟨ids, ids', hids, hids', hfinds, hfinds'⟩
    · rw [htokens] at hnil
      cases hnil
    · obtain rfl := Except.ok.inj (hids.symm.trans hnone)
      obtain rfl := Except.ok.inj (hids'.symm.trans hfound)
      have hmem := (hfinds ['m']).mpr ((hfinds' ['m']).mp List.mem_cons_self)
      exact List.not_mem_nil hmem
  · intro h
    have hrefused : postgresLikeSearchMessageIds (fun l => l) [withSubject ['m'] "发票A1".toList]
        invoiceQuery ⟨[], none, none⟩ 1 strict = .error .database := by decide
    rcases h (fun l => l) (fun l => l) (fun l => .refl l) (fun l => .refl l)
        [withSubject ['m'] "发票A1".toList] ⟨[], none, none⟩ 1 fun ms hms _ => hms.length_le with
      ⟨hnil, -, -⟩ | ⟨ids, ids', -, hids', -, -⟩
    · rw [htokens] at hnil
      cases hnil
    · rw [hrefused] at hids'
      cases hids'

end Lyra.Search
