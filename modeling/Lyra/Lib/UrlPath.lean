import Mathlib.Algebra.GroupWithZero.Nat
import Lyra.Lib.PercentEncoding

/-!
# Paths of URLs

The path of a reference that begins with a slash, as the URL standard parses it for http: a
backslash is a slash, and dot segments are taken away.

* `requestPath_of_plain`: a path without dot segments is only escaped;
* `length_decode_requestPath`: a dot segment makes the path shorter;
* `decodeEscapes_requestPath`: what is decoded again.
-/

namespace Lyra.Lib

/-! ## Segments -/

def isPathBreak (c : Char) : Bool := c == '/' || c == '\\'

def isSingleDot (s : List Char) : Bool := s.map Char.toLower ∈ [".".toList, "%2e".toList]

def isDoubleDot (s : List Char) : Bool :=
  s.map Char.toLower ∈ ["..".toList, ".%2e".toList, "%2e.".toList, "%2e%2e".toList]

def isDots (s : List Char) : Bool := isDoubleDot s || isSingleDot s

/-- The segments without the dot segments; `acc` holds those before, in reverse. -/
def removeDots : List (List Char) → List (List Char) → List (List Char)
  | acc, [] => acc.reverse
  | acc, [s] =>
    if isDoubleDot s then acc.tail.reverse ++ [[]]
    else if isSingleDot s then acc.reverse ++ [[]]
    else acc.reverse ++ [s]
  | acc, s :: rest =>
    if isDoubleDot s then removeDots acc.tail rest
    else if isSingleDot s then removeDots acc rest
    else removeDots (s :: acc) rest

def joinPath (segments : List (List Char)) : List Char := '/' :: ['/'].intercalate segments

/-- The characters that are escaped in a path. -/
def encodesInPath (c : Char) : Bool :=
  c.toNat ≤ 0x20 || 0x7f ≤ c.toNat ||
    ['"', '#', '<', '>', '?', '^', '`', Char.ofNat 0x7b, Char.ofNat 0x7d].contains c

/-- The path that is asked for, for what stands behind the first slash of a reference. -/
def requestPath (path : List Char) : List Char :=
  percentEncode encodesInPath (joinPath (removeDots [] (path.splitOnP isPathBreak)))

/-! ## Dot segments -/

section Dots

variable {acc segments : List (List Char)} {s t : List Char}

/-- The bytes of a path, a slash before each segment. -/
def pathWeight (segments : List (List Char)) : Nat :=
  (segments.map fun s => (decodeEscapes s).length + 1).sum

theorem pathWeight_append (a b : List (List Char)) :
    pathWeight (a ++ b) = pathWeight a + pathWeight b := by
  simp [pathWeight]

theorem pathWeight_cons (s : List Char) (b : List (List Char)) :
    pathWeight (s :: b) = (decodeEscapes s).length + 1 + pathWeight b := by
  simp [pathWeight]

theorem pathWeight_reverse (a : List (List Char)) : pathWeight a.reverse = pathWeight a := by
  simp [pathWeight, List.sum_reverse]

theorem pathWeight_tail (a : List (List Char)) : pathWeight a.tail ≤ pathWeight a := by
  cases a with
  | nil => exact Nat.le_refl _
  | cons s a =>
    rw [List.tail_cons, pathWeight_cons]
    omega

theorem length_decodeEscapes_pos (h : s ≠ []) : 0 < (decodeEscapes s).length := by
  fun_cases decodeEscapes s with
  | case1 a b s v hpair => simp
  | case2 a b s hpair => simp
  | case3 c s hshort =>
    have := length_toUtf8_pos c
    rw [List.length_append]
    omega
  | case4 => exact absurd rfl h

theorem isDots_ne_nil (h : isDots s = true) : s ≠ [] := by
  rintro rfl
  exact absurd h (by decide)

/-- Either there are no dot segments, or the path gets shorter. -/
theorem removeDots_cases (acc segments : List (List Char)) :
    (∀ s ∈ segments, isDots s = false) ∧ removeDots acc segments = acc.reverse ++ segments ∨
      pathWeight (removeDots acc segments) < pathWeight acc + pathWeight segments := by
  have htail := pathWeight_tail acc
  have hempty : pathWeight [[]] = 1 := rfl
  have hpos : ∀ s, isDots s = true → 0 < (decodeEscapes s).length :=
    fun s hs => length_decodeEscapes_pos (isDots_ne_nil hs)
  fun_induction removeDots acc segments with
  | case1 acc => exact .inl ⟨nofun, (List.append_nil _).symm⟩
  | case2 acc s hdouble =>
    right
    have := hpos s (by simp [isDots, hdouble])
    rw [pathWeight_append, pathWeight_reverse, hempty, pathWeight_cons]
    omega
  | case3 acc s hdouble hsingle =>
    right
    have := hpos s (by simp [isDots, hsingle])
    rw [pathWeight_append, pathWeight_reverse, hempty, pathWeight_cons]
    omega
  | case4 acc s hdouble hsingle =>
    left
    refine ⟨fun x hx => ?_, rfl⟩
    rw [List.mem_singleton.mp hx]
    simp [isDots, hdouble, hsingle]
  | case5 acc s rest hrest hdouble ih =>
    right
    have := hpos s (by simp [isDots, hdouble])
    have htail' := pathWeight_tail acc.tail
    rw [pathWeight_cons]
    rcases ih htail' with ⟨-, heq⟩ | hlt
    · rw [heq, pathWeight_append, pathWeight_reverse]
      omega
    · omega
  | case6 acc s rest hrest hdouble hsingle ih =>
    right
    have := hpos s (by simp [isDots, hsingle])
    rw [pathWeight_cons]
    rcases ih htail with ⟨-, heq⟩ | hlt
    · rw [heq, pathWeight_append, pathWeight_reverse]
      omega
    · omega
  | case7 acc s rest hrest hdouble hsingle ih =>
    have hnot : isDots s = false := by simp [isDots, hdouble, hsingle]
    rcases ih (pathWeight_tail _) with ⟨hall, heq⟩ | hlt
    · left
      exact ⟨List.forall_mem_cons.mpr ⟨hnot, hall⟩, by rw [heq]; simp⟩
    · right
      rw [pathWeight_cons] at hlt ⊢
      omega

theorem removeDots_of_not (h : ∀ s ∈ segments, isDots s = false) (acc : List (List Char)) :
    removeDots acc segments = acc.reverse ++ segments := by
  fun_induction removeDots acc segments with
  | case1 acc => exact (List.append_nil _).symm
  | case2 acc s hdouble => simp [isDots, hdouble] at h
  | case3 acc s hdouble hsingle => simp [isDots, hsingle] at h
  | case4 acc s hdouble hsingle => rfl
  | case5 acc s rest hrest hdouble ih => simp [isDots, hdouble] at h
  | case6 acc s rest hrest hdouble hsingle ih => simp [isDots, hsingle] at h
  | case7 acc s rest hrest hdouble hsingle ih =>
    rw [ih fun x hx => h x (List.mem_cons_of_mem _ hx)]
    simp

theorem removeDots_ne_nil (h : segments ≠ []) (acc : List (List Char)) :
    removeDots acc segments ≠ [] := by
  fun_induction removeDots acc segments with
  | case1 acc => exact absurd rfl h
  | case2 acc s hdouble => simp
  | case3 acc s hdouble hsingle => simp
  | case4 acc s hdouble hsingle => simp
  | case5 acc s rest hrest hdouble ih => exact ih fun hnil => hrest hnil
  | case6 acc s rest hrest hdouble hsingle ih => exact ih fun hnil => hrest hnil
  | case7 acc s rest hrest hdouble hsingle ih => exact ih fun hnil => hrest hnil

/-! ## Paths -/

theorem toUtf8_slash : toUtf8 ['/'] = [0x2f] := by decide

theorem decodeEscapes_slash (a b : List Char) :
    decodeEscapes (a ++ '/' :: b) = decodeEscapes a ++ 0x2f :: decodeEscapes b := by
  rw [decodeEscapes_append (by decide) (by decide), toUtf8_slash]
  rfl

theorem joinPath_cons_cons (s t : List Char) (segments : List (List Char)) :
    joinPath (s :: t :: segments) = '/' :: (s ++ joinPath (t :: segments)) := by
  simp [joinPath, List.intercalate]

theorem joinPath_singleton (s : List Char) : joinPath [s] = '/' :: s := by
  simp [joinPath, List.intercalate]

theorem length_decodeEscapes_joinPath (h : segments ≠ []) :
    (decodeEscapes (joinPath segments)).length = pathWeight segments := by
  have hslash : ∀ s, (decodeEscapes ('/' :: s)).length = (decodeEscapes s).length + 1 :=
    fun s => congrArg List.length (decodeEscapes_slash [] s)
  induction segments with
  | nil => exact absurd rfl h
  | cons s segments ih =>
    cases segments with
    | nil =>
      rw [joinPath_singleton, hslash]
      rfl
    | cons t segments =>
      have hrest := ih (List.cons_ne_nil t segments)
      rw [joinPath_cons_cons, pathWeight_cons, hslash, ← hrest, joinPath, decodeEscapes_slash,
        List.length_append, List.length_cons, hslash]
      omega

/-- Backslashes are slashes. -/
def slashes (t : List Char) : List Char := t.map fun c => if isPathBreak c then '/' else c

theorem joinPath_splitOnP (t : List Char) : joinPath (t.splitOnP isPathBreak) = '/' :: slashes t := by
  induction t with
  | nil => rfl
  | cons c t ih =>
    rw [List.splitOnP_cons_eq_if_modifyHead]
    have hcons : slashes (c :: t) = (if isPathBreak c then '/' else c) :: slashes t := rfl
    have htail : slashes t = ('/' :: slashes t).tail := rfl
    rw [hcons, htail, ← ih]
    cases hs : t.splitOnP isPathBreak with
    | nil => exact absurd hs (List.splitOnP_ne_nil _ _)
    | cons s segments =>
      split
      · rw [joinPath_cons_cons]
        rfl
      · rw [List.modifyHead_cons]
        cases segments with
        | nil =>
          rw [joinPath_singleton, joinPath_singleton]
          rfl
        | cons u segments =>
          rw [joinPath_cons_cons, joinPath_cons_cons]
          rfl

theorem slashes_of_not_mem (h : '\\' ∉ t) : slashes t = t := by
  unfold slashes
  refine (List.map_congr_left fun c hc => ?_).trans (List.map_id _)
  have hne : c ≠ '\\' := ne_of_mem_of_not_mem hc h
  by_cases hslash : c = '/'
  · rw [hslash]
    rfl
  · rw [if_neg (by simp [isPathBreak, hslash, hne])]
    rfl

theorem isPathBreak_cases {c : Char} (h : isPathBreak c = true) : c = '/' ∨ c = '\\' := by
  simpa [isPathBreak] using h

theorem backslash_not_mem_slashes (t : List Char) : '\\' ∉ slashes t := by
  intro h
  obtain ⟨c, -, hc⟩ := List.mem_map.mp h
  split at hc
  · cases hc
  · rename_i hbreak
    rw [hc] at hbreak
    exact hbreak rfl

theorem length_toUtf8_slashes (t : List Char) :
    (toUtf8 (slashes t)).length = (toUtf8 t).length := by
  induction t with
  | nil => rfl
  | cons c t ih =>
    have hcons : slashes (c :: t) = (if isPathBreak c then '/' else c) :: slashes t := rfl
    rw [hcons, toUtf8_cons, toUtf8_cons c, List.length_append, List.length_append, ih]
    split
    · rename_i hc
      rcases isPathBreak_cases hc with rfl | rfl <;> rfl
    · rfl

theorem length_decodeEscapes_slashes (t : List Char) :
    (decodeEscapes (slashes t)).length = (decodeEscapes t).length := by
  apply length_decodeEscapes_map
  · intro c
    split
    · rename_i hc
      rcases isPathBreak_cases hc with rfl | rfl <;> rfl
    · rfl
  · intro c
    split
    · rename_i hc
      rcases isPathBreak_cases hc with rfl | rfl <;> decide
    · rfl
  · intro c
    split
    · rename_i hc
      rcases isPathBreak_cases hc with rfl | rfl <;> decide
    · rfl

theorem encodesInPath_safe : EscapesSafely encodesInPath :=
  .of_ascii (by decide) (by decide)

theorem decodeEscapes_requestPath (t : List Char) : decodeEscapes (requestPath t) =
    decodeEscapes (joinPath (removeDots [] (t.splitOnP isPathBreak))) :=
  decodeEscapes_percentEncode encodesInPath_safe _

theorem requestPath_of_plain (h : ∀ s ∈ t.splitOnP isPathBreak, isDots s = false) :
    requestPath t = percentEncode encodesInPath ('/' :: slashes t) := by
  unfold requestPath
  rw [removeDots_of_not h, List.reverse_nil, List.nil_append, joinPath_splitOnP]

/-- The asked path has no more bytes than the reference, and as many only without dot segments. -/
theorem length_decode_requestPath (t : List Char) :
    (∀ s ∈ t.splitOnP isPathBreak, isDots s = false) ∨
      (decodeEscapes (requestPath t)).length < (decodeEscapes (slashes t)).length + 1 := by
  have hne := List.splitOnP_ne_nil isPathBreak t
  have hsplit := length_decodeEscapes_joinPath hne
  rw [joinPath_splitOnP] at hsplit
  have hslash : (decodeEscapes ('/' :: slashes t)).length = (decodeEscapes (slashes t)).length + 1 :=
    congrArg List.length (decodeEscapes_slash [] (slashes t))
  rw [decodeEscapes_requestPath, length_decodeEscapes_joinPath (removeDots_ne_nil hne []), ← hslash,
    hsplit]
  rcases removeDots_cases [] (t.splitOnP isPathBreak) with ⟨hall, -⟩ | hlt
  · exact .inl hall
  · right
    have hnil : pathWeight [] = 0 := rfl
    omega

theorem slashes_append (a b : List Char) : slashes (a ++ b) = slashes a ++ slashes b :=
  List.map_append

/-- Breaks stay where they are when other characters are escaped. -/
theorem splitOnP_percentEncode {encodes : Char → Bool}
    (hbreak : ∀ c, isPathBreak c = true → encodes c = false) (t : List Char) :
    (percentEncode encodes t).splitOnP isPathBreak =
      (t.splitOnP isPathBreak).map (percentEncode encodes) := by
  have hescape : ∀ a b : List Char, (∀ c ∈ a, isPathBreak c = false) →
      (a ++ b).splitOnP isPathBreak = (b.splitOnP isPathBreak).modifyHead (a ++ ·) := by
    intro a b ha
    induction a with
    | nil => exact (congrFun List.modifyHead_id _).symm
    | cons c a ih =>
      rw [List.cons_append, List.splitOnP_cons_eq_if_modifyHead,
        if_neg (by simp [ha c List.mem_cons_self]), ih fun x hx => ha x (List.mem_cons_of_mem _ hx),
        List.modifyHead_modifyHead]
      rfl
  have hdigits : ∀ c ∈ '%' :: "0123456789ABCDEF".toList, isPathBreak c = false :=
    forall_mem_of_all (by decide)
  induction t with
  | nil => rfl
  | cons c t ih =>
    rw [List.splitOnP_cons_eq_if_modifyHead]
    cases hc : encodes c with
    | true =>
      have hnot : isPathBreak c = false := by
        by_contra h
        rw [hbreak c (by simpa using h)] at hc
        cases hc
      rw [percentEncode_cons hc, hescape _ _ fun x hx => hdigits x (mem_flatMap_escapeByte hx), ih,
        if_neg (by simp [hnot])]
      cases t.splitOnP isPathBreak with
      | nil => rfl
      | cons s segments => simp [percentEncode_cons hc]
    | false =>
      rw [percentEncode_cons_of_not hc, List.splitOnP_cons_eq_if_modifyHead, ih]
      split
      · rfl
      · cases t.splitOnP isPathBreak with
        | nil => rfl
        | cons s segments => simp [percentEncode_cons_of_not hc]

theorem hexNumber_of_isPathBreak {c : Char} (h : isPathBreak c = true) :
    c ≠ '%' ∧ hexNumber c = none := by
  rcases isPathBreak_cases h with rfl | rfl
  · exact ⟨by decide, rfl⟩
  · exact ⟨by decide, rfl⟩

theorem hasEscape_of_mem_splitOnP (h : hasEscape t = false) (hs : s ∈ t.splitOnP isPathBreak) :
    hasEscape s = false := by
  induction hn : t.length using Nat.strongRecOn generalizing t with
  | ind n ih =>
    by_cases hall : ∀ c ∈ t, isPathBreak c = false
    · rw [List.splitOnP_eq_singleton hall, List.mem_singleton] at hs
      rw [hs]
      exact h
    · obtain ⟨c, hmem, hc⟩ : ∃ c ∈ t, isPathBreak c = true := by simpa using hall
      obtain ⟨a, b, rfl⟩ := List.append_of_mem hmem
      obtain ⟨hpercent, hhex⟩ := hexNumber_of_isPathBreak hc
      obtain ⟨ha, hb⟩ : hasEscape a = false ∧ hasEscape b = false := by
        simpa [h] using hasEscape_append hpercent hhex a b
      rw [List.length_append, List.length_cons] at hn
      rw [List.splitOnP_append_cons _ _ hc] at hs
      rcases List.mem_append.mp hs with hs | hs
      · exact ih a.length (by omega) ha hs rfl
      · exact ih b.length (by omega) hb hs rfl

/-! ## Dots -/

theorem toLower_cases {c d : Char} (hd : d.toNat < 128) (h : c.toLower = d) :
    c = d ∨ c = d.toUpper := by
  have hall : ∀ n < 128, Char.ofNat n = (Char.ofNat n).toLower ∨
      Char.ofNat n = (Char.ofNat n).toLower.toUpper := by decide
  have hascii : c.toNat < 128 := by
    by_contra hlarge
    have hsame : c.toLower = c := by
      unfold Char.toLower
      split
      · rename_i hupper
        have hle : c.toNat ≤ 'Z'.toNat := hupper.2
        exact absurd (Nat.lt_of_le_of_lt hle (by decide)) hlarge
      · rfl
    rw [← hsame, h] at hlarge
    exact hlarge hd
  have hc := hall c.toNat hascii
  rw [Char.ofNat_toNat, h] at hc
  exact hc

/-- A dot, as it stands or escaped. -/
theorem decodeEscapes_dot {a : List Char} (h : a.map Char.toLower ∈ [".".toList, "%2e".toList])
    (t : List Char) : decodeEscapes (a ++ t) = 0x2e :: decodeEscapes t := by
  have hforms : ".".toList = ['.'] ∧ "%2e".toList = ['%', '2', 'e'] := by decide
  obtain ⟨hplain, hescaped⟩ := hforms
  rw [hplain, hescaped] at h
  simp only [List.mem_cons, List.not_mem_nil, or_false] at h
  rcases h with h | h
  · obtain ⟨c, e, rfl, hc, he⟩ := List.map_eq_cons_iff.mp h
    obtain rfl := List.map_eq_nil_iff.mp he
    obtain rfl : c = '.' := (toLower_cases (by decide) hc).elim id id
    rw [List.singleton_append, decodeEscapes_cons (by decide)]
    rfl
  · obtain ⟨c, e, rfl, hc, he⟩ := List.map_eq_cons_iff.mp h
    obtain ⟨x, e, rfl, hx, he⟩ := List.map_eq_cons_iff.mp he
    obtain ⟨y, e, rfl, hy, he⟩ := List.map_eq_cons_iff.mp he
    obtain rfl := List.map_eq_nil_iff.mp he
    obtain rfl : c = '%' := (toLower_cases (by decide) hc).elim id id
    obtain rfl : x = '2' := (toLower_cases (by decide) hx).elim id id
    obtain rfl | rfl : y = 'e' ∨ y = 'E' := toLower_cases (by decide) hy
    · rfl
    · rfl

/-- A dot segment is decoded as one dot or as two. -/
theorem decodeEscapes_of_isDots (h : isDots s = true) :
    decodeEscapes s = toUtf8 ['.'] ∨ decodeEscapes s = toUtf8 ['.', '.'] := by
  have hdots : toUtf8 ['.'] = [0x2e] ∧ toUtf8 ['.', '.'] = [0x2e, 0x2e] := by decide
  have hforms : ∀ form ∈ ["..".toList, ".%2e".toList, "%2e.".toList, "%2e%2e".toList],
      ∃ a ∈ [".".toList, "%2e".toList], ∃ b ∈ [".".toList, "%2e".toList], form = a ++ b := by decide
  rw [hdots.1, hdots.2]
  unfold isDots isDoubleDot isSingleDot at h
  rw [Bool.or_eq_true, decide_eq_true_eq, decide_eq_true_eq] at h
  rcases h with h | h
  · right
    obtain ⟨a, ha, b, hb, hform⟩ := hforms _ h
    obtain ⟨a', b', rfl, rfl, rfl⟩ := List.map_eq_append_iff.mp hform
    rw [← List.append_nil b', decodeEscapes_dot ha, decodeEscapes_dot hb]
    rfl
  · left
    rw [← List.append_nil s, decodeEscapes_dot h]
    rfl

end Dots

end Lyra.Lib
