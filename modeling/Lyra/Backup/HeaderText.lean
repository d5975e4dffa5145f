import Lyra.Store.Schema
import Lyra.Lib.EncodedWord

/-!
# Header text of a restored message

`sanitize_header` and `encode_header_value` of `backup/export.rs`: text that is not ASCII goes out
as encoded words of at most 45 bytes each, other text as it is.

* `packChunks_spec`: the chunks are the text, none is empty and none is too long;
* `encodeHeaderValue_faithful`: what is decoded is the sanitized text, unless it is ASCII text in
  which an encoded word stands already;
* `encoded_word_decoded`: then it is decoded.
-/

namespace Lyra.Backup

open Lyra.Lib

/-! ## The encoder -/

def isAscii (t : Text) : Bool := t.all (·.toNat < 128)

def sanitizeHeader (value : Text) : Text :=
  value.map fun c => if c = '\r' ∨ c = '\n' then ' ' else c

def encodedWordPayloadChars : Nat := 60

/-- An encoded word. -/
def encodeChunk (chunk : Text) : Text :=
  "=?UTF-8?B?".toList ++ (Base64.encode (toUtf8 chunk) ++ "?=".toList)

/-- The loop over the characters: a chunk ends before the character that would make its word too
long. -/
def packChunks : Text → Text → List Text
  | chunk, [] => if chunk.isEmpty then [] else [chunk]
  | chunk, c :: s =>
    if !chunk.isEmpty && decide (encodedWordPayloadChars <
        4 * (((toUtf8 chunk).length + c.utf8Size + 2) / 3)) then
      chunk :: packChunks [c] s
    else packChunks (chunk ++ [c]) s

def encodeHeaderValue (value : Text) : Text :=
  let clean := sanitizeHeader value
  if isAscii clean then clean
  else ['\r', '\n', ' '].intercalate ((packChunks [] clean).map encodeChunk)

/-! ## Chunks -/

theorem flatten_packChunks (chunk s : Text) : (packChunks chunk s).flatten = chunk ++ s := by
  fun_induction packChunks chunk s with
  | case1 chunk hempty => simpa using hempty
  | case2 chunk hempty => simp
  | case3 chunk c s hfull ih => rw [List.flatten_cons, ih]; rfl
  | case4 chunk c s hroom ih => rw [ih, List.append_assoc]; rfl

/-- The chunks are not empty and have at most 45 bytes. -/
theorem packChunks_spec {chunk s : Text} (h : (toUtf8 chunk).length ≤ 45) :
    ∀ x ∈ packChunks chunk s, x ≠ [] ∧ (toUtf8 x).length ≤ 45 := by
  fun_induction packChunks chunk s with
  | case1 chunk hempty => simp
  | case2 chunk hempty =>
    intro x hx
    rw [List.mem_singleton.mp hx]
    exact ⟨by simpa using hempty, h⟩
  | case3 chunk c s hfull ih =>
    have hone : (toUtf8 [c]).length ≤ 45 := by
      rw [length_toUtf8_singleton]
      have := c.utf8Size_le_four
      omega
    intro x hx
    rcases List.mem_cons.mp hx with rfl | hx
    · simp only [Bool.and_eq_true, Bool.not_eq_true', List.isEmpty_eq_false_iff] at hfull
      exact ⟨hfull.1, h⟩
    · exact ih hone x hx
  | case4 chunk c s hroom ih =>
    apply ih
    rw [toUtf8_append, List.length_append, length_toUtf8_singleton]
    have := c.utf8Size_le_four
    simp only [Bool.and_eq_true, Bool.not_eq_true', decide_eq_true_eq, not_and, Nat.not_lt,
      List.isEmpty_eq_false_iff] at hroom
    by_cases hnil : chunk = []
    · subst hnil
      simp only [toUtf8, List.flatMap_nil, List.length_nil]
      omega
    · have := hroom hnil
      unfold encodedWordPayloadChars at this
      omega

/-! ## Words -/

theorem length_encodeChunk {chunk : Text} (h : (toUtf8 chunk).length ≤ 45) :
    (encodeChunk chunk).length ≤ 75 := by
  unfold encodeChunk
  rw [List.length_append, List.length_append, Base64.length_encode]
  have hopen : "=?UTF-8?B?".toList.length = 10 := by decide
  have hclose : "?=".toList.length = 2 := by decide
  omega

theorem mem_encodeChunk {chunk : Text} {c : Char} (h : c ∈ encodeChunk chunk) :
    c ∈ "=?UTF-8?B?".toList ++ ('=' :: Base64.digits) := by
  unfold encodeChunk at h
  rcases List.mem_append.mp h with h | h
  · exact List.mem_append_left _ h
  · rcases List.mem_append.mp h with h | h
    · exact List.mem_append_right _ (Base64.mem_encode h)
    · have hclose : ∀ x ∈ "?=".toList, x ∈ "=?UTF-8?B?".toList :=
        forall_mem_of_all (by decide)
      exact List.mem_append_left _ (hclose c h)

theorem encode_toUtf8_ne_nil {chunk : Text} (hne : chunk ≠ []) :
    Base64.encode (toUtf8 chunk) ≠ [] := by
  obtain ⟨c, rest, rfl⟩ := List.exists_cons_of_ne_nil hne
  have hbytes : toUtf8 (c :: rest) = toUtf8 [c] ++ toUtf8 rest := toUtf8_append [c] rest
  have hlength := Base64.length_encode (toUtf8 (c :: rest))
  rw [hbytes, List.length_append, length_toUtf8_singleton] at hlength
  have := c.utf8Size_pos
  intro hnil
  rw [hbytes] at hnil
  rw [hnil, List.length_nil] at hlength
  omega

theorem ne_of_mem_encode {bytes : List UInt8} {c : Char} (h : c ∈ Base64.encode bytes) :
    c ≠ '?' := by
  refine ne_of_mem_of_not_mem (Base64.mem_encode h) ?_
  rw [Base64.digits_eq]
  decide

theorem toList_open :
    "=?UTF-8?B?".toList = ['=', '?', 'U', 'T', 'F', '-', '8', '?', 'B', '?'] :=
  String.toList_ofList

/-- The reader on a word of this shape. -/
theorem readWord_of_payload {payload : Text} (hne : payload ≠ []) (h : ∀ c ∈ payload, c ≠ '?') :
    readWord ("=?UTF-8?B?".toList ++ (payload ++ "?=".toList)) =
      some ⟨"UTF-8".toList, 'B', payload⟩ := by
  have hclose : "?=".toList = ['?', '='] := by decide
  have hcharset : "UTF-8".toList = ['U', 'T', 'F', '-', '8'] := by decide
  have hall : ∀ c ∈ payload, decide (c ≠ '?') = true := fun c hc => decide_eq_true (h c hc)
  have htake : (payload ++ ['?', '=']).takeWhile (· ≠ '?') = payload := by
    rw [List.takeWhile_append_of_pos hall]
    simp
  have hdrop : (payload ++ ['?', '=']).dropWhile (· ≠ '?') = ['?', '='] := by
    rw [List.dropWhile_append_of_pos hall]
    simp
  simp only [decide_not] at htake hdrop
  rw [toList_open, hclose, hcharset]
  simp [readWord, htake, hdrop, hne]

theorem readWord_encodeChunk {chunk : Text} (hne : chunk ≠ []) :
    readWord (encodeChunk chunk) =
      some ⟨"UTF-8".toList, 'B', Base64.encode (toUtf8 chunk)⟩ :=
  readWord_of_payload (encode_toUtf8_ne_nil hne) fun _ => ne_of_mem_encode

theorem encodeChunk_spec (chunk : Text) :
    encodeChunk chunk ≠ [] ∧ (∀ c ∈ encodeChunk chunk, isWsp c = false) ∧
      '\r' ∉ encodeChunk chunk ∧ '\n' ∉ encodeChunk chunk ∧ isAscii (encodeChunk chunk) = true := by
  have hall : ∀ c ∈ "=?UTF-8?B?".toList ++ ('=' :: Base64.digits),
      (!isWsp c && c != '\r' && c != '\n' && decide (c.toNat < 128)) = true := by
    rw [toList_open, Base64.digits_eq]
    exact forall_mem_of_all (by decide +kernel)
  have hspec : ∀ c ∈ encodeChunk chunk,
      isWsp c = false ∧ c ≠ '\r' ∧ c ≠ '\n' ∧ c.toNat < 128 := by
    intro c hc
    simpa [and_assoc] using hall c (mem_encodeChunk hc)
  refine ⟨?_, fun c hc => (hspec c hc).1, ?_, ?_, ?_⟩
  · unfold encodeChunk
    rw [toList_open]
    exact List.cons_ne_nil _ _
  · exact fun hmem => (hspec _ hmem).2.1 rfl
  · exact fun hmem => (hspec _ hmem).2.2.1 rfl
  · exact List.all_eq_true.mpr fun c hc => decide_eq_true (hspec c hc).2.2.2

/-! ## What a reader of the header sees -/

section Reader

variable (others : Text → List UInt8 → Option Text)

/-- Text that is not ASCII is in words of whole characters, and lines end in folding only. -/
structure WellFormedHeader (value : Text) : Prop where
  words : isAscii (sanitizeHeader value) = false → ∃ chunks : List Text,
    chunks.flatten = sanitizeHeader value ∧
    encodeHeaderValue value = ['\r', '\n', ' '].intercalate (chunks.map encodeChunk) ∧
    ∀ chunk ∈ chunks, (encodeChunk chunk).length ≤ 75 ∧
      decodeWord (withUtf8 others) (encodeChunk chunk) = some chunk
  breaks : ∀ c ∈ unfoldLines (encodeHeaderValue value), c ≠ '\r' ∧ c ≠ '\n'

/-- A decoder reads the sanitized text back. -/
structure FaithfulHeader (value : Text) : Prop extends WellFormedHeader others value where
  decoded : decodeHeader (withUtf8 others) (encodeHeaderValue value) = sanitizeHeader value

variable {others}

theorem decodeWord_encodeChunk {chunk : Text} (hne : chunk ≠ []) (h : (toUtf8 chunk).length ≤ 45) :
    decodeWord (withUtf8 others) (encodeChunk chunk) = some chunk := by
  have hlength := length_encodeChunk h
  have hutf8 : withUtf8 others "UTF-8".toList = ofUtf8 := if_pos (by decide)
  unfold decodeWord
  rw [if_neg (Nat.not_lt.mpr hlength), readWord_encodeChunk hne, Option.bind_some]
  simp only [EncodedWord.bytes, true_or, if_true, Base64.decode_encode, Option.bind_some, hutf8]
  exact ofUtf8_toUtf8 chunk

theorem sanitizeHeader_breaks {value : Text} {c : Char} (h : c ∈ sanitizeHeader value) :
    c ≠ '\r' ∧ c ≠ '\n' := by
  obtain ⟨x, -, rfl⟩ := List.mem_map.mp h
  split
  · decide
  · rename_i hx
    exact not_or.mp hx

theorem chunks_spec (s : Text) : ∀ x ∈ packChunks [] s, x ≠ [] ∧ (toUtf8 x).length ≤ 45 :=
  packChunks_spec (by simp [toUtf8])

theorem decodeHeader_chunks (s : Text) :
    decodeHeader (withUtf8 others)
      (['\r', '\n', ' '].intercalate ((packChunks [] s).map encodeChunk)) = s := by
  have hdecode : ∀ w ∈ (packChunks [] s).map encodeChunk,
      decodeWord (withUtf8 others) w = some ((decodeWord (withUtf8 others) w).getD []) := by
    intro w hw
    obtain ⟨chunk, hchunk, rfl⟩ := List.mem_map.mp hw
    obtain ⟨hne, hlength⟩ := chunks_spec s chunk hchunk
    rw [decodeWord_encodeChunk hne hlength]
    rfl
  have htexts : ((packChunks [] s).map encodeChunk).flatMap
      (fun w => (decodeWord (withUtf8 others) w).getD []) = (packChunks [] s).flatten := by
    rw [List.flatMap_map, ← List.flatMap_id]
    apply List.flatMap_congr
    intro chunk hchunk
    obtain ⟨hne, hlength⟩ := chunks_spec s chunk hchunk
    rw [decodeWord_encodeChunk hne hlength]
    rfl
  have hwords : ∀ w ∈ (packChunks [] s).map encodeChunk, w ≠ [] ∧ ∀ c ∈ w, isWsp c = false := by
    intro w hw
    obtain ⟨chunk, -, rfl⟩ := List.mem_map.mp hw
    exact ⟨(encodeChunk_spec chunk).1, (encodeChunk_spec chunk).2.1⟩
  have hbreak : ∀ w ∈ (packChunks [] s).map encodeChunk, '\r' ∉ w := by
    intro w hw
    obtain ⟨chunk, -, rfl⟩ := List.mem_map.mp hw
    exact (encodeChunk_spec chunk).2.2.1
  rw [decodeHeader_words hwords hbreak hdecode, htexts, flatten_packChunks]
  rfl

/-- Breaks stand before white space only. -/
theorem breaks_chunks {chunks : List Text} {c : Char}
    (h : c ∈ unfoldLines (['\r', '\n', ' '].intercalate (chunks.map encodeChunk))) :
    c ≠ '\r' ∧ c ≠ '\n' := by
  have hbreak : ∀ w ∈ chunks.map encodeChunk, '\r' ∉ w := by
    intro w hw
    obtain ⟨chunk, -, rfl⟩ := List.mem_map.mp hw
    exact (encodeChunk_spec chunk).2.2.1
  rw [unfoldLines_intercalate hbreak] at h
  obtain ⟨w, hw, hc⟩ := List.mem_flatten.mp h
  rcases mem_intersperse hw with hw | rfl
  · obtain ⟨chunk, -, rfl⟩ := List.mem_map.mp hw
    constructor
    · rintro rfl
      exact (encodeChunk_spec chunk).2.2.1 hc
    · rintro rfl
      exact (encodeChunk_spec chunk).2.2.2.1 hc
  · rw [List.mem_singleton.mp hc]
    decide

theorem encodeHeaderValue_of_ascii {value : Text} (h : isAscii (sanitizeHeader value) = true) :
    encodeHeaderValue value = sanitizeHeader value := by
  simp only [encodeHeaderValue, h, if_true]

theorem encodeHeaderValue_of_not_ascii {value : Text}
    (h : isAscii (sanitizeHeader value) = false) :
    encodeHeaderValue value = ['\r', '\n', ' '].intercalate
      ((packChunks [] (sanitizeHeader value)).map encodeChunk) := by
  simp only [encodeHeaderValue, h, Bool.false_eq_true, if_false]

theorem not_mem_sanitizeHeader (value : Text) : '\r' ∉ sanitizeHeader value :=
  fun hmem => (sanitizeHeader_breaks hmem).1 rfl

theorem encodeHeaderValue_wellFormed (value : Text) : WellFormedHeader others value := by
  constructor
  · intro hascii
    refine ⟨_, flatten_packChunks [] _, encodeHeaderValue_of_not_ascii hascii, ?_⟩
    intro chunk hchunk
    obtain ⟨hne, hlength⟩ := chunks_spec _ chunk hchunk
    exact ⟨length_encodeChunk hlength, decodeWord_encodeChunk hne hlength⟩
  · intro c hc
    cases hascii : isAscii (sanitizeHeader value) with
    | false =>
      rw [encodeHeaderValue_of_not_ascii hascii] at hc
      exact breaks_chunks hc
    | true =>
      rw [encodeHeaderValue_of_ascii hascii,
        unfoldLines_of_not_mem (not_mem_sanitizeHeader value)] at hc
      exact sanitizeHeader_breaks hc

theorem decodeHeader_encodeHeaderValue {value : Text}
    (h : isAscii (sanitizeHeader value) = false ∨
      ∀ w ∈ runs (sanitizeHeader value), decodeWord (withUtf8 others) w = none) :
    decodeHeader (withUtf8 others) (encodeHeaderValue value) = sanitizeHeader value := by
  cases hascii : isAscii (sanitizeHeader value) with
  | false =>
    rw [encodeHeaderValue_of_not_ascii hascii]
    exact decodeHeader_chunks _
  | true =>
    rw [hascii] at h
    rw [encodeHeaderValue_of_ascii hascii]
    exact decodeHeader_plain (not_mem_sanitizeHeader value) (h.resolve_left nofun)

variable (others) in
/-- The words and the folding are right for every value, and what is read is the sanitized text
unless it is ASCII text with an encoded word in it. -/
theorem encodeHeaderValue_faithful (value : Text) :
    WellFormedHeader others value ∧
    ((isAscii (sanitizeHeader value) = false ∨
        ∀ w ∈ runs (sanitizeHeader value), decodeWord (withUtf8 others) w = none) →
      FaithfulHeader others value) :=
  ⟨encodeHeaderValue_wellFormed value, fun h =>
    ⟨encodeHeaderValue_wellFormed value, decodeHeader_encodeHeaderValue h⟩⟩

/-! ## The case that is left out -/

/-- An ASCII text that is an encoded word is sent as it stands, and read as what it encodes. -/
theorem encoded_word_decoded {chunk : Text} (hne : chunk ≠ []) (h : (toUtf8 chunk).length ≤ 45) :
    decodeHeader (withUtf8 others) (encodeHeaderValue (encodeChunk chunk)) = chunk := by
  obtain ⟨hword, hblank, hcr, hlf, hascii⟩ := encodeChunk_spec chunk
  have hclean : sanitizeHeader (encodeChunk chunk) = encodeChunk chunk := by
    unfold sanitizeHeader
    refine (List.map_congr_left fun c hc => if_neg ?_).trans (List.map_id _)
    rintro (rfl | rfl)
    · exact hcr hc
    · exact hlf hc
  have hout : encodeHeaderValue (encodeChunk chunk) = encodeChunk chunk := by
    rw [encodeHeaderValue_of_ascii (by rwa [hclean]), hclean]
  have hone : encodeChunk chunk = ['\r', '\n', ' '].intercalate [encodeChunk chunk] := by
    simp [List.intercalate]
  have hdecode : decodeWord (withUtf8 others) (encodeChunk chunk) = some chunk :=
    decodeWord_encodeChunk hne h
  have hread : decodeHeader (withUtf8 others) (['\r', '\n', ' '].intercalate [encodeChunk chunk]) =
      [encodeChunk chunk].flatMap fun _ => chunk :=
    decodeHeader_words (by simpa using ⟨hword, hblank⟩) (by simpa using hcr) (by simpa using hdecode)
  rw [hout, hone, hread]
  simp

theorem not_faithful_encoded_word : ¬ FaithfulHeader (fun _ _ => none) (encodeChunk ['H', 'i']) := by
  intro h
  have hread : decodeHeader (withUtf8 fun _ _ => none)
      (encodeHeaderValue (encodeChunk ['H', 'i'])) = ['H', 'i'] :=
    encoded_word_decoded (by decide) (by decide)
  have heq := h.decoded
  rw [hread] at heq
  exact absurd (congrArg List.length heq) (by decide)

end Reader

end Lyra.Backup
