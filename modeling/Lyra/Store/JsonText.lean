import Lyra.Spam.Judge

/-!
# Reading JSON texts

A reader of RFC 8259 for values as far as a stored column can be one, against the writer of
`Lyra.Store.Messages`.  A number of steps bounds the recursion.

* `readString_jsonString`: what was written as a string is read as it;
* `readJson_jsonArray`, `readJson_jsonRaw`, `readJson_jsonObject`: so are the shapes that columns
  hold.
-/

namespace Lyra

/-! ## The reader -/

def skipSpace (s : Text) : Text :=
  s.dropWhile fun c => c == ' ' || c == '\n' || c == '\r' || c == '\t'

def hexValue (c : Char) : Option Nat :=
  if c.isDigit then some (c.toNat - '0'.toNat)
  else if 'a' ≤ c && c ≤ 'f' then some (c.toNat - 'a'.toNat + 10)
  else if 'A' ≤ c && c ≤ 'F' then some (c.toNat - 'A'.toNat + 10)
  else none

/-- Four hexadecimal digits. -/
def readHex : Text → Option (Nat × Text)
  | a :: b :: c :: d :: s => do
    let a ← hexValue a
    let b ← hexValue b
    let c ← hexValue c
    let d ← hexValue d
    return (((a * 16 + b) * 16 + c) * 16 + d, s)
  | _ => none

/-- What follows a backslash and `u`; the second half of a pair is escaped, too. -/
def readUnicode (s : Text) : Option (Char × Text) :=
  match readHex s with
  | none => none
  | some (n, s) =>
    if 0xdc00 ≤ n ∧ n ≤ 0xdfff then none
    else if 0xd800 ≤ n ∧ n ≤ 0xdbff then
      match s with
      | '\\' :: 'u' :: s =>
        match readHex s with
        | none => none
        | some (m, s) =>
          if 0xdc00 ≤ m ∧ m ≤ 0xdfff then
            some (Char.ofNat (0x10000 + (n - 0xd800) * 0x400 + (m - 0xdc00)), s)
          else none
      | _ => none
    else some (Char.ofNat n, s)

/-- What follows a backslash. -/
def readEscape : Text → Option (Char × Text)
  | '"' :: s => some ('"', s)
  | '\\' :: s => some ('\\', s)
  | '/' :: s => some ('/', s)
  | 'b' :: s => some (Char.ofNat 8, s)
  | 'f' :: s => some (Char.ofNat 12, s)
  | 'n' :: s => some ('\n', s)
  | 'r' :: s => some ('\r', s)
  | 't' :: s => some ('\t', s)
  | 'u' :: s => readUnicode s
  | _ => none

/-- The characters of a string and what follows its closing quote. -/
def readChars : Nat → Text → Option (Text × Text)
  | 0, _ => none
  | _ + 1, [] => none
  | n + 1, c :: s =>
    if c = '"' then some ([], s)
    else if c = '\\' then
      (readEscape s).bind fun x => (readChars n x.2).map fun y => (x.1 :: y.1, y.2)
    else if c.toNat < 32 then none
    else (readChars n s).map fun y => (c :: y.1, y.2)

def readDigits (s : Text) : Option Text :=
  match s with
  | [] => none
  | c :: s => if c.isDigit then some (s.dropWhile Char.isDigit) else none

def readFraction : Text → Option Text
  | '.' :: s => readDigits s
  | s => some s

def readExponent : Text → Option Text
  | c :: s =>
    if c = 'e' ∨ c = 'E' then
      match s with
      | '+' :: s => readDigits s
      | '-' :: s => readDigits s
      | s => readDigits s
    else some (c :: s)
  | [] => some []

/-- What follows a number. -/
def readNumber (s : Text) : Option Text :=
  let digits := fun s : Text =>
    match s with
    | '0' :: s => some s
    | s => readDigits s
  ((match s with
    | '-' :: s => digits s
    | s => digits s).bind readFraction).bind readExponent

def readLiteral (s : Text) : Option (Json × Text) :=
  if "true".toList.isPrefixOf s then some (.other, s.drop 4)
  else if "false".toList.isPrefixOf s then some (.other, s.drop 5)
  else if "null".toList.isPrefixOf s then some (.other, s.drop 4)
  else (readNumber s).map fun s => (.other, s)

mutual

def readValue : Nat → Text → Option (Json × Text)
  | 0, _ => none
  | n + 1, s =>
    match skipSpace s with
    | [] => none
    | c :: s =>
      if c = '"' then (readChars (s.length + 1) s).map fun x => (.string x.1, x.2)
      else if c = '[' then
        match skipSpace s with
        | ']' :: s => some (.array [], s)
        | s => (readItems n s).map fun x => (.array x.1, x.2)
      else if c.toNat = 0x7b then
        match skipSpace s with
        | d :: s =>
          if d.toNat = 0x7d then some (.object [], s)
          else (readFields n (d :: s)).map fun x => (.object x.1, x.2)
        | [] => none
      else readLiteral (c :: s)

def readItems : Nat → Text → Option (List Json × Text)
  | 0, _ => none
  | n + 1, s =>
    (readValue n s).bind fun x =>
      match skipSpace x.2 with
      | ',' :: s => (readItems n s).map fun y => (x.1 :: y.1, y.2)
      | ']' :: s => some ([x.1], s)
      | _ => none

def readFields : Nat → Text → Option (List (Text × Json) × Text)
  | 0, _ => none
  | n + 1, s =>
    match skipSpace s with
    | '"' :: s =>
      (readChars (s.length + 1) s).bind fun k =>
        match skipSpace k.2 with
        | ':' :: s =>
          (readValue n s).bind fun x =>
            match skipSpace x.2 with
            | ',' :: s => (readFields n s).map fun y => ((k.1, x.1) :: y.1, y.2)
            | d :: s => if d.toNat = 0x7d then some ([(k.1, x.1)], s) else none
            | [] => none
        | _ => none
    | _ => none

end

/-- A whole text: one value between white space. -/
def readJson (s : Text) : Option Json :=
  match readValue (s.length + 1) s with
  | some (v, rest) => if skipSpace rest = [] then some v else none
  | none => none

/-! ## Strings -/

section Strings

variable {c : Char} {n : Nat} {s rest : Text}

theorem hexValue_hexDigit : ∀ d < 16, hexValue (hexDigit d) = some d := by decide

theorem readHex_low (h : c.toNat < 32) (s : Text) :
    readHex ('0' :: '0' :: hexDigit (c.toNat / 16) :: hexDigit (c.toNat % 16) :: s) =
      some (c.toNat, s) := by
  have hzero : hexValue '0' = some 0 := by decide
  have hnat : c.toNat / 16 * 16 + c.toNat % 16 = c.toNat := Nat.div_add_mod' _ _
  rw [readHex, hzero, hexValue_hexDigit _ (by omega), hexValue_hexDigit _ (by omega)]
  simp [hnat]

/-- One escaped character takes one step. -/
theorem readChars_escape : readChars (n + 1) (jsonEscape c ++ s) =
    (readChars n s).map fun y => (c :: y.1, y.2) := by
  unfold jsonEscape
  split
  · rename_i hc
    subst hc
    rfl
  · split
    · rename_i hc
      subst hc
      rfl
    · split
      · rename_i hc
        subst hc
        rfl
      · split
        · rename_i hc
          subst hc
          rfl
        · split
          · rename_i hc
            subst hc
            rfl
          · split
            · rename_i hc
              have heq : c = Char.ofNat 8 := by rw [← hc, Char.ofNat_toNat]
              subst heq
              rfl
            · split
              · rename_i hc
                have heq : c = Char.ofNat 12 := by rw [← hc, Char.ofNat_toNat]
                subst heq
                rfl
              · split
                · rename_i hlow
                  have hhex := readHex_low hlow s
                  have hunicode : readUnicode ('0' :: '0' :: hexDigit (c.toNat / 16) ::
                      hexDigit (c.toNat % 16) :: s) = some (c, s) := by
                    unfold readUnicode
                    rw [hhex]
                    simp only
                    rw [if_neg (by omega), if_neg (by omega), Char.ofNat_toNat]
                  have hescape : readEscape ('u' :: '0' :: '0' :: hexDigit (c.toNat / 16) ::
                      hexDigit (c.toNat % 16) :: s) = some (c, s) := hunicode
                  rw [List.cons_append, readChars, if_neg (by decide), if_pos rfl]
                  simp only [List.cons_append, List.nil_append]
                  rw [hescape]
                  rfl
                · rename_i hquote hback _ _ _ _ _ hlow
                  rw [List.singleton_append, readChars, if_neg hquote, if_neg hback, if_neg hlow]

theorem readChars_jsonEscape (h : s.length < n) :
    readChars n (s.flatMap jsonEscape ++ '"' :: rest) = some (s, rest) := by
  induction s generalizing n with
  | nil =>
    cases n with
    | zero => cases h
    | succ n => rfl
  | cons c s ih =>
    cases n with
    | zero => cases h
    | succ n =>
      rw [List.flatMap_cons, List.append_assoc, readChars_escape,
        ih (Nat.lt_of_succ_lt_succ h)]
      rfl

theorem jsonEscape_ne_nil (c : Char) : jsonEscape c ≠ [] := by
  unfold jsonEscape
  repeat' split
  all_goals exact List.cons_ne_nil _ _

theorem length_le_jsonEscape (s : Text) : s.length ≤ (s.flatMap jsonEscape).length := by
  induction s with
  | nil => exact Nat.le_refl 0
  | cons c s ih =>
    have hpos := List.length_pos_of_ne_nil (jsonEscape_ne_nil c)
    rw [List.flatMap_cons, List.length_append, List.length_cons]
    omega

/-- A written string is read, whatever follows. -/
theorem readString_jsonString (s rest : Text) :
    readValue (n + 1) (jsonString s ++ rest) = some (.string s, rest) := by
  have hopen : jsonString s ++ rest = '"' :: (s.flatMap jsonEscape ++ '"' :: rest) := by
    simp [jsonString]
  have hlength := length_le_jsonEscape s
  have hchars : readChars ((s.flatMap jsonEscape ++ '"' :: rest).length + 1)
      (s.flatMap jsonEscape ++ '"' :: rest) = some (s, rest) := by
    apply readChars_jsonEscape
    rw [List.length_append]
    omega
  rw [hopen, readValue]
  have hskip : skipSpace ('"' :: (s.flatMap jsonEscape ++ '"' :: rest)) =
      '"' :: (s.flatMap jsonEscape ++ '"' :: rest) := by
    unfold skipSpace
    rw [List.dropWhile_cons_of_neg (by decide)]
  simp only [hskip]
  rw [if_pos trivial, hchars]
  rfl

end Strings

/-! ## The shapes of columns -/

theorem skipSpace_of_not {c : Char} (h : (c == ' ' || c == '\n' || c == '\r' || c == '\t') = false)
    (s : Text) : skipSpace (c :: s) = c :: s := by
  unfold skipSpace
  rw [List.dropWhile_cons_of_neg]
  rw [h]
  exact Bool.false_ne_true

/-- Written strings between commas, up to the closing bracket. -/
theorem readItems_jsonStrings {n : Nat} {items : List Text} (hne : items ≠ [])
    (h : items.length < n) :
    readItems n ([','].intercalate (items.map jsonString) ++ [']']) =
      some (items.map Json.string, []) := by
  induction items generalizing n with
  | nil => exact absurd rfl hne
  | cons s items ih =>
    cases n with
    | zero => cases h
    | succ n =>
      cases n with
      | zero => simp at h
      | succ n =>
        cases items with
        | nil =>
          have hone : [','].intercalate ([s].map jsonString) ++ [']'] = jsonString s ++ [']'] := by
            simp [List.intercalate]
          rw [hone, readItems, readString_jsonString, Option.bind_some,
            skipSpace_of_not (by decide)]
          rfl
        | cons s' items =>
          have hcons : [','].intercalate ((s :: s' :: items).map jsonString) ++ [']'] =
              jsonString s ++ (',' :: ([','].intercalate ((s' :: items).map jsonString) ++ [']'])) := by
            simp [List.intercalate]
          rw [hcons, readItems, readString_jsonString, Option.bind_some,
            skipSpace_of_not (by decide)]
          simp only
          rw [ih (List.cons_ne_nil _ _) (Nat.lt_of_succ_lt_succ h)]
          rfl

theorem length_jsonArray (items : List Text) : items.length < (jsonArray items).length := by
  have hitems : items.length ≤ ([','].intercalate (items.map jsonString)).length := by
    induction items with
    | nil => exact Nat.zero_le _
    | cons s items ih =>
      cases items with
      | nil => simp [List.intercalate, jsonString]
      | cons s' items =>
        have hcons : [','].intercalate ((s :: s' :: items).map jsonString) =
            jsonString s ++ ',' :: [','].intercalate ((s' :: items).map jsonString) := by
          simp [List.intercalate]
        rw [List.length_cons] at ih
        rw [hcons, List.length_append, List.length_cons, List.length_cons, List.length_cons]
        omega
  unfold jsonArray
  rw [List.length_append, List.length_cons]
  omega

theorem readJson_jsonArray (items : List Text) :
    readJson (jsonArray items) = some (.array (items.map Json.string)) := by
  have hlength := length_jsonArray items
  have hopen : jsonArray items =
      '[' :: ([','].intercalate (items.map jsonString) ++ [']']) := rfl
  have hvalue : readValue ((jsonArray items).length + 1) (jsonArray items) =
      some (.array (items.map Json.string), []) := by
    cases items with
    | nil => rfl
    | cons s items =>
      have hquote : ∃ t, [','].intercalate ((s :: items).map jsonString) ++ [']'] = '"' :: t := by
        cases items with
        | nil => exact ⟨_, by simp [List.intercalate, jsonString]; rfl⟩
        | cons s' items => exact ⟨_, by simp [List.intercalate, jsonString]; rfl⟩
      obtain ⟨t, ht⟩ := hquote
      have hitems := readItems_jsonStrings (List.cons_ne_nil s items) hlength
      rw [hopen, ht] at hitems ⊢
      rw [readValue, skipSpace_of_not (by decide)]
      simp only
      rw [if_neg (by decide), if_pos trivial, skipSpace_of_not (by decide)]
      exact congrArg (Option.map fun x => (Json.array x.1, x.2)) hitems
  unfold readJson
  rw [hvalue]
  rfl

theorem readJson_jsonRaw (s : Text) :
    readJson (jsonRaw s) = some (.object [("raw".toList, .string s)]) := by
  let tail : Text := jsonString s ++ [Char.ofNat 0x7d]
  have hopen : jsonRaw s = Char.ofNat 0x7b :: '"' ::
      ("raw".toList.flatMap jsonEscape ++ '"' :: ':' :: tail) := by
    simp [jsonRaw, tail, jsonEscape]
  have hkey : ∀ m, 3 < m → readChars m ("raw".toList.flatMap jsonEscape ++ '"' :: ':' :: tail) =
      some ("raw".toList, ':' :: tail) := fun m hm => readChars_jsonEscape hm
  have hfields : ∀ n, readFields (n + 2) ('"' ::
      ("raw".toList.flatMap jsonEscape ++ '"' :: ':' :: tail)) =
        some ([("raw".toList, .string s)], []) := by
    intro n
    rw [readFields, skipSpace_of_not (by decide)]
    simp only
    rw [hkey _ (by simp [jsonEscape]), Option.bind_some, skipSpace_of_not (by decide)]
    simp only
    rw [readString_jsonString, Option.bind_some, skipSpace_of_not (by decide)]
    rfl
  have hvalue : readValue ((jsonRaw s).length + 1) (jsonRaw s) =
      some (.object [("raw".toList, .string s)], []) := by
    obtain ⟨n, hn⟩ : ∃ n, (jsonRaw s).length = n + 2 := by
      rw [hopen]
      exact ⟨_, rfl⟩
    rw [hn, hopen, readValue, skipSpace_of_not (by decide)]
    simp only
    rw [if_neg (by decide), if_neg (by decide), if_pos (by decide), skipSpace_of_not (by decide)]
    simp only
    rw [if_neg (by decide), hfields]
    rfl
  unfold readJson
  rw [hvalue]
  rfl

/-! ## Objects of `true` and strings -/

/-- A value of an object: a string, or `true`. -/
def jsonScalar : Option Text → Text
  | some s => jsonString s
  | none => "true".toList

def jsonField (f : Text × Option Text) : Text := jsonString f.1 ++ ':' :: jsonScalar f.2

def jsonObject (fields : List (Text × Option Text)) : Text :=
  Char.ofNat 0x7b :: [','].intercalate (fields.map jsonField) ++ [Char.ofNat 0x7d]

def scalarJson : Option Text → Json
  | some s => .string s
  | none => .other

theorem readScalar_jsonScalar {n : Nat} (v : Option Text) (rest : Text) :
    readValue (n + 1) (jsonScalar v ++ rest) = some (scalarJson v, rest) := by
  cases v with
  | some s => exact readString_jsonString s rest
  | none => rfl

/-- A written field up to what separates it from the next. -/
theorem readFields_jsonField (n : Nat) (f : Text × Option Text) (rest : Text) :
    readFields (n + 2) (jsonField f ++ rest) =
      match skipSpace rest with
      | ',' :: s => (readFields (n + 1) s).map fun y => ((f.1, scalarJson f.2) :: y.1, y.2)
      | d :: s => if d.toNat = 0x7d then some ([(f.1, scalarJson f.2)], s) else none
      | [] => none := by
  have hopen : jsonField f ++ rest =
      '"' :: (f.1.flatMap jsonEscape ++ '"' :: ':' :: (jsonScalar f.2 ++ rest)) := by
    simp [jsonField, jsonString]
  have hlength := length_le_jsonEscape f.1
  have hchars : readChars
      ((f.1.flatMap jsonEscape ++ '"' :: ':' :: (jsonScalar f.2 ++ rest)).length + 1)
      (f.1.flatMap jsonEscape ++ '"' :: ':' :: (jsonScalar f.2 ++ rest)) =
        some (f.1, ':' :: (jsonScalar f.2 ++ rest)) := by
    apply readChars_jsonEscape
    rw [List.length_append]
    omega
  rw [hopen, readFields, skipSpace_of_not (by decide)]
  simp only
  rw [hchars, Option.bind_some, skipSpace_of_not (by decide)]
  simp only
  rw [readScalar_jsonScalar, Option.bind_some]

theorem readFields_jsonFields {n : Nat} {fields : List (Text × Option Text)} (hne : fields ≠ [])
    (h : fields.length < n) :
    readFields n ([','].intercalate (fields.map jsonField) ++ [Char.ofNat 0x7d]) =
      some (fields.map fun f => (f.1, scalarJson f.2), []) := by
  induction fields generalizing n with
  | nil => exact absurd rfl hne
  | cons f fields ih =>
    obtain ⟨n, rfl⟩ : ∃ m, n = m + 2 := ⟨n - 2, by simp only [List.length_cons] at h; omega⟩
    cases fields with
    | nil =>
      have hone : [','].intercalate ([f].map jsonField) ++ [Char.ofNat 0x7d] =
          jsonField f ++ [Char.ofNat 0x7d] := by
        simp [List.intercalate]
      rw [hone, readFields_jsonField]
      rfl
    | cons f' fields =>
      have hcons : [','].intercalate ((f :: f' :: fields).map jsonField) ++ [Char.ofNat 0x7d] =
          jsonField f ++ (',' :: ([','].intercalate ((f' :: fields).map jsonField) ++
            [Char.ofNat 0x7d])) := by
        simp [List.intercalate]
      rw [hcons, readFields_jsonField, skipSpace_of_not (by decide)]
      simp only
      rw [ih (List.cons_ne_nil _ _) (Nat.lt_of_succ_lt_succ h)]
      rfl

theorem length_jsonObject (fields : List (Text × Option Text)) :
    fields.length < (jsonObject fields).length := by
  have hfields : fields.length ≤ ([','].intercalate (fields.map jsonField)).length := by
    induction fields with
    | nil => exact Nat.zero_le _
    | cons f fields ih =>
      cases fields with
      | nil => simp [List.intercalate, jsonField, jsonString]
      | cons f' fields =>
        have hcons : [','].intercalate ((f :: f' :: fields).map jsonField) =
            jsonField f ++ ',' :: [','].intercalate ((f' :: fields).map jsonField) := by
          simp [List.intercalate]
        rw [List.length_cons] at ih
        rw [hcons, List.length_append, List.length_cons, List.length_cons, List.length_cons]
        omega
  unfold jsonObject
  rw [List.length_append, List.length_cons]
  omega

theorem readJson_jsonObject (fields : List (Text × Option Text)) :
    readJson (jsonObject fields) = some (.object (fields.map fun f => (f.1, scalarJson f.2))) := by
  have hlength := length_jsonObject fields
  have hopen : jsonObject fields = Char.ofNat 0x7b ::
      ([','].intercalate (fields.map jsonField) ++ [Char.ofNat 0x7d]) := rfl
  have hvalue : readValue ((jsonObject fields).length + 1) (jsonObject fields) =
      some (.object (fields.map fun f => (f.1, scalarJson f.2)), []) := by
    cases fields with
    | nil => rfl
    | cons f fields =>
      have hquote : ∃ t, [','].intercalate ((f :: fields).map jsonField) ++ [Char.ofNat 0x7d] =
          '"' :: t := by
        cases fields with
        | nil => exact ⟨_, by simp [List.intercalate, jsonField, jsonString]; rfl⟩
        | cons f' fields => exact ⟨_, by simp [List.intercalate, jsonField, jsonString]; rfl⟩
      obtain ⟨t, ht⟩ := hquote
      have hfields := readFields_jsonFields (List.cons_ne_nil f fields) hlength
      rw [hopen, ht] at hfields ⊢
      rw [readValue, skipSpace_of_not (by decide)]
      simp only
      rw [if_neg (by decide), if_neg (by decide), if_pos (by decide), skipSpace_of_not (by decide)]
      simp only
      rw [if_neg (by decide)]
      exact congrArg (Option.map fun x => (Json.object x.1, x.2)) hfields
  unfold readJson
  rw [hvalue]
  rfl

end Lyra
