import Lyra.Lib.Base64
import Mathlib.Data.List.SplitBy

/-!
# Encoded words

How RFC 2047 reads unstructured header text: folding is undone, an encoded word stands between
white space, and the white space between two encoded words is dropped.  The character sets are a
parameter.

* `decodeHeader_plain`: a text without encoded words is read as it stands;
* `decodeHeader_words`: encoded words that are folded one below the other are read as their
  texts, one after the other.
-/

namespace Lyra.Lib

/-! ## Bytes of texts -/

def toUtf8 (t : List Char) : List UInt8 := t.flatMap String.utf8EncodeChar

def ofUtf8 (bytes : List UInt8) : Option (List Char) :=
  bytes.toByteArray.utf8Decode?.map Array.toList

theorem ofUtf8_toUtf8 (t : List Char) : ofUtf8 (toUtf8 t) = some t := by
  have hbytes : (toUtf8 t).toByteArray = t.utf8Encode := rfl
  unfold ofUtf8
  rw [hbytes, List.utf8Decode?_utf8Encode]
  rfl

theorem toUtf8_of_ofUtf8 {bytes : List UInt8} {t : List Char} (h : ofUtf8 bytes = some t) :
    toUtf8 t = bytes := by
  obtain ⟨a, ha, rfl⟩ := Option.map_eq_some_iff.mp h
  have hbytes : (toUtf8 a.toList).toByteArray = a.toList.utf8Encode := rfl
  have hsome : (bytes.toByteArray.utf8Decode?).isSome := by rw [ha]; rfl
  have hget : bytes.toByteArray.utf8Decode?.get hsome = a := Option.get_of_eq_some hsome ha
  have hencode := ByteArray.utf8Encode_get_utf8Decode? (b := bytes.toByteArray) (h := hsome)
  rw [hget, ← hbytes] at hencode
  exact List.toByteArray_inj.mp hencode

theorem toUtf8_append (s t : List Char) : toUtf8 (s ++ t) = toUtf8 s ++ toUtf8 t := List.flatMap_append

theorem length_toUtf8_singleton (c : Char) : (toUtf8 [c]).length = c.utf8Size := by
  unfold toUtf8
  rw [List.flatMap_singleton, String.length_utf8EncodeChar]

/-! ## Words -/

def isWsp (c : Char) : Bool := c == ' ' || c == '\t'

structure EncodedWord where
  charset : List Char
  encoding : Char
  payload : List Char
  deriving DecidableEq, Repr

/-- The character sets of a decoder that knows UTF-8 and perhaps others. -/
def withUtf8 (others : List Char → List UInt8 → Option (List Char)) (name : List Char) :
    List UInt8 → Option (List Char) :=
  if name.map Char.toUpper = "UTF-8".toList then ofUtf8 else others name

/-- The form of an encoded word. -/
def readWord : List Char → Option EncodedWord
  | '=' :: '?' :: s =>
    match s.dropWhile (· ≠ '?') with
    | '?' :: e :: '?' :: payload =>
      if s.takeWhile (· ≠ '?') ≠ [] ∧ payload.takeWhile (· ≠ '?') ≠ [] ∧
          payload.dropWhile (· ≠ '?') = ['?', '='] then
        some ⟨s.takeWhile (· ≠ '?'), e, payload.takeWhile (· ≠ '?')⟩
      else none
    | _ => none
  | _ => none

def hexNumber (c : Char) : Option Nat :=
  if c.isDigit then some (c.toNat - '0'.toNat)
  else if 'A' ≤ c && c ≤ 'F' then some (c.toNat - 'A'.toNat + 10)
  else if 'a' ≤ c && c ≤ 'f' then some (c.toNat - 'a'.toNat + 10)
  else none

/-- The bytes of the other encoding. -/
def decodeQ : List Char → Option (List UInt8)
  | [] => some []
  | '=' :: a :: b :: s => do
    let a ← hexNumber a
    let b ← hexNumber b
    return UInt8.ofNat (a * 16 + b) :: (← decodeQ s)
  | '=' :: _ => none
  | '_' :: s => (decodeQ s).map (0x20 :: ·)
  | c :: s => (decodeQ s).map (UInt8.ofNat c.toNat :: ·)

/-- The bytes of an encoded word. -/
def EncodedWord.bytes (w : EncodedWord) : Option (List UInt8) :=
  if w.encoding = 'B' ∨ w.encoding = 'b' then Base64.decode w.payload
  else if w.encoding = 'Q' ∨ w.encoding = 'q' then decodeQ w.payload
  else none

section Decode

variable (charsets : List Char → List UInt8 → Option (List Char))

/-- The text of an encoded word, which has at most 75 characters. -/
def decodeWord (w : List Char) : Option (List Char) :=
  if 75 < w.length then none
  else (readWord w).bind fun word => word.bytes.bind (charsets word.charset)

/-- The runs of a line: words and the white space between them. -/
def decodeRuns : List (List Char) → List Char
  | [] => []
  | [w] => (decodeWord charsets w).getD w
  | [w, gap] => (decodeWord charsets w).getD w ++ (decodeWord charsets gap).getD gap
  | w :: gap :: next :: rest =>
    if (decodeWord charsets w).isSome && (decodeWord charsets next).isSome then
      (decodeWord charsets w).getD w ++ decodeRuns (next :: rest)
    else (decodeWord charsets w).getD w ++ decodeRuns (gap :: next :: rest)

/-- Line breaks before white space are taken away. -/
def unfoldLines : List Char → List Char
  | '\r' :: '\n' :: ' ' :: s => ' ' :: unfoldLines s
  | '\r' :: '\n' :: '\t' :: s => '\t' :: unfoldLines s
  | c :: s => c :: unfoldLines s
  | [] => []

def runs (s : List Char) : List (List Char) := s.splitBy fun a b => isWsp a == isWsp b

def decodeHeader (s : List Char) : List Char := decodeRuns charsets (runs (unfoldLines s))

end Decode

/-! ## Texts without encoded words -/

section Plain

variable {charsets : List Char → List UInt8 → Option (List Char)} {s : List Char}

theorem unfoldLines_of_not_mem (h : '\r' ∉ s) : unfoldLines s = s := by
  induction s with
  | nil => rfl
  | cons c s ih =>
    obtain ⟨hc, hs⟩ := List.ne_and_not_mem_of_not_mem_cons h
    rw [unfoldLines, ih hs]
    · rintro s' rfl
      exact absurd rfl hc
    · rintro s' rfl
      exact absurd rfl hc

theorem unfoldLines_append (h : '\r' ∉ s) (t : List Char) :
    unfoldLines (s ++ (['\r', '\n', ' '] ++ t)) = s ++ ([' '] ++ unfoldLines t) := by
  induction s with
  | nil => rfl
  | cons c s ih =>
    obtain ⟨hc, hs⟩ := List.ne_and_not_mem_of_not_mem_cons h
    rw [List.cons_append, unfoldLines, ih hs]
    · rfl
    · rintro s' rfl
      exact absurd rfl hc
    · rintro s' rfl
      exact absurd rfl hc

theorem decodeRuns_plain {ws : List (List Char)} (h : ∀ w ∈ ws, decodeWord charsets w = none) :
    decodeRuns charsets ws = ws.flatten := by
  fun_induction decodeRuns charsets ws with
  | case1 => rfl
  | case2 w => simp [h w List.mem_cons_self]
  | case3 w gap => simp [h w List.mem_cons_self, h gap (by simp)]
  | case4 w gap next rest hboth ih => simp [h w List.mem_cons_self] at hboth
  | case5 w gap next rest hboth ih =>
    rw [h w List.mem_cons_self, ih fun w hw => h w (List.mem_cons_of_mem _ hw)]
    rfl

theorem decodeHeader_plain (hbreak : '\r' ∉ s) (h : ∀ w ∈ runs s, decodeWord charsets w = none) :
    decodeHeader charsets s = s := by
  unfold decodeHeader
  rw [unfoldLines_of_not_mem hbreak, decodeRuns_plain h]
  exact List.flatten_splitBy _ s

end Plain

/-! ## Folded encoded words -/

section Words

variable {charsets : List Char → List UInt8 → Option (List Char)} {ws : List (List Char)}

theorem exists_intersperse_cons (v : List Char) (ws : List (List Char)) :
    ∃ rest, (v :: ws).intersperse [' '] = v :: rest := by
  cases ws with
  | nil => exact ⟨[], rfl⟩
  | cons u ws => exact ⟨_, rfl⟩

theorem decodeRuns_words {text : List Char → List Char}
    (h : ∀ w ∈ ws, decodeWord charsets w = some (text w)) :
    decodeRuns charsets (ws.intersperse [' ']) = ws.flatMap text := by
  induction ws with
  | nil => rfl
  | cons w ws ih =>
    have hw := h w List.mem_cons_self
    cases ws with
    | nil => simp [decodeRuns, hw]
    | cons v ws =>
      have hv := h v (by simp)
      have hrest := ih fun u hu => h u (List.mem_cons_of_mem _ hu)
      obtain ⟨rest, hstart⟩ := exists_intersperse_cons v ws
      rw [List.intersperse_cons_cons, hstart, decodeRuns, hw, hv, ← hstart, hrest]
      rfl

theorem isChain_of_not_mem {w : List Char} (h : ∀ c ∈ w, isWsp c = false) :
    w.IsChain fun a b => (isWsp a == isWsp b) = true := by
  induction w with
  | nil => exact .nil
  | cons a w ih =>
    cases w with
    | nil => exact .singleton a
    | cons b w =>
      refine .cons_cons ?_ (ih fun c hc => h c (List.mem_cons_of_mem _ hc))
      rw [h a List.mem_cons_self, h b (by simp)]
      rfl

theorem intersperse_getLast_head {w v : List Char} (hw : w ≠ []) (hv : v ≠ [])
    (hwsp : ∀ c ∈ w, isWsp c = false) (hvsp : ∀ c ∈ v, isWsp c = false) :
    (isWsp (w.getLast hw) == isWsp ([' '].head (by simp))) = false ∧
      (isWsp ([' '].getLast (by simp)) == isWsp (v.head hv)) = false := by
  rw [hwsp _ (List.getLast_mem hw), hvsp _ (List.head_mem hv)]
  exact ⟨rfl, rfl⟩

theorem mem_intersperse {m : List Char} (h : m ∈ ws.intersperse [' ']) : m ∈ ws ∨ m = [' '] := by
  induction ws with
  | nil => exact .inl h
  | cons w ws ih =>
    cases ws with
    | nil => exact .inl h
    | cons v ws =>
      rw [List.intersperse_cons_cons, List.mem_cons, List.mem_cons] at h
      rcases h with rfl | rfl | h
      · exact .inl List.mem_cons_self
      · exact .inr rfl
      · exact (ih h).imp_left (List.mem_cons_of_mem _)

theorem isChain_intersperse (h : ∀ w ∈ ws, w ≠ [] ∧ ∀ c ∈ w, isWsp c = false) :
    (ws.intersperse [' ']).IsChain fun a b =>
      ∃ (ha : a ≠ []) (hb : b ≠ []), (isWsp (a.getLast ha) == isWsp (b.head hb)) = false := by
  induction ws with
  | nil => exact .nil
  | cons w ws ih =>
    obtain ⟨hw, hwsp⟩ := h w List.mem_cons_self
    cases ws with
    | nil => exact .singleton w
    | cons v ws =>
      obtain ⟨hv, hvsp⟩ := h v (by simp)
      have hrest := ih fun u hu => h u (List.mem_cons_of_mem _ hu)
      obtain ⟨hbefore, hbehind⟩ := intersperse_getLast_head hw hv hwsp hvsp
      obtain ⟨rest, hstart⟩ := exists_intersperse_cons v ws
      rw [hstart] at hrest
      rw [List.intersperse_cons_cons, hstart]
      exact .cons_cons ⟨hw, by simp, hbefore⟩ (.cons_cons ⟨by simp, hv, hbehind⟩ hrest)

theorem runs_intercalate (h : ∀ w ∈ ws, w ≠ [] ∧ ∀ c ∈ w, isWsp c = false) :
    runs ([' '].intercalate ws) = ws.intersperse [' '] := by
  unfold runs List.intercalate
  apply List.splitBy_flatten
  · intro hnil
    rcases mem_intersperse hnil with hmem | hblank
    · exact (h [] hmem).1 rfl
    · cases hblank
  · intro m hm
    rcases mem_intersperse hm with hmem | rfl
    · exact isChain_of_not_mem (h m hmem).2
    · exact .singleton ' '
  · exact isChain_intersperse h

/-- The breaks between words are taken away. -/
theorem unfoldLines_intercalate (h : ∀ w ∈ ws, '\r' ∉ w) :
    unfoldLines (['\r', '\n', ' '].intercalate ws) = [' '].intercalate ws := by
  induction ws with
  | nil => rfl
  | cons w ws ih =>
    have hw := h w List.mem_cons_self
    cases ws with
    | nil =>
      have hone : ∀ sep : List Char, sep.intercalate [w] = w := by simp [List.intercalate]
      rw [hone, hone]
      exact unfoldLines_of_not_mem hw
    | cons v ws =>
      have hrest := ih fun u hu => h u (List.mem_cons_of_mem _ hu)
      have htwo : ∀ sep : List Char, sep.intercalate (w :: v :: ws) =
          w ++ (sep ++ sep.intercalate (v :: ws)) := by
        intro sep
        simp [List.intercalate]
      rw [htwo, htwo, ← hrest]
      exact unfoldLines_append hw _

theorem decodeHeader_words {text : List Char → List Char}
    (hwords : ∀ w ∈ ws, w ≠ [] ∧ ∀ c ∈ w, isWsp c = false) (hbreak : ∀ w ∈ ws, '\r' ∉ w)
    (h : ∀ w ∈ ws, decodeWord charsets w = some (text w)) :
    decodeHeader charsets (['\r', '\n', ' '].intercalate ws) = ws.flatMap text := by
  unfold decodeHeader
  rw [unfoldLines_intercalate hbreak, runs_intercalate hwords, decodeRuns_words h]

end Words

end Lyra.Lib
