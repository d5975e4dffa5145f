import Lyra.Lib.EncodedWord

/-!
# Percent-encoding

Escapes of bytes in a text, as RFC 3986 has them.  Which characters are escaped is a parameter; a
percent sign and the hexadecimal digits are not.

* `decodeEscapes_percentEncode`: escaping changes nothing about what is decoded;
* `decodeEscapes_of_not`: a text without escapes is decoded to its own bytes;
* `length_decodeEscapes_lt`: an escape makes it shorter.
-/

namespace Lyra.Lib

/-! ## Escapes -/

def hexUpper (n : Nat) : Char := "0123456789ABCDEF".toList.getD n '0'

def escapeByte (b : UInt8) : List Char := ['%', hexUpper (b.toNat / 16), hexUpper (b.toNat % 16)]

def percentEncode (encodes : Char → Bool) (t : List Char) : List Char :=
  t.flatMap fun c => if encodes c then (toUtf8 [c]).flatMap escapeByte else [c]

/-- The byte of two digits. -/
def hexPair (a b : Char) : Option UInt8 :=
  match hexNumber a, hexNumber b with
  | some x, some y => some (UInt8.ofNat (x * 16 + y))
  | _, _ => none

def decodeEscapes : List Char → List UInt8
  | '%' :: a :: b :: s =>
    match hexPair a b with
    | some v => v :: decodeEscapes s
    | none => 0x25 :: decodeEscapes (a :: b :: s)
  | c :: s => toUtf8 [c] ++ decodeEscapes s
  | [] => []

/-- There is an escape. -/
def hasEscape : List Char → Bool
  | '%' :: a :: b :: s => (hexPair a b).isSome || hasEscape (a :: b :: s)
  | _ :: s => hasEscape s
  | [] => false

/-! ## Decoding -/

section Decode

variable {encodes : Char → Bool} {a b s t : List Char} {c : Char}

theorem toUtf8_percent : toUtf8 ['%'] = [0x25] := by decide

theorem decodeEscapes_cons (h : c ≠ '%') (s : List Char) :
    decodeEscapes (c :: s) = toUtf8 [c] ++ decodeEscapes s := by
  rw [decodeEscapes]
  rintro a b s' rfl
  exact absurd rfl h

theorem hexNumber_hexUpper : ∀ n < 16, hexNumber (hexUpper n) = some n := by decide

theorem decodeEscapes_escapeByte (v : UInt8) (s : List Char) :
    decodeEscapes (escapeByte v ++ s) = v :: decodeEscapes s := by
  have hv := v.toNat_lt
  have hpair : hexPair (hexUpper (v.toNat / 16)) (hexUpper (v.toNat % 16)) = some v := by
    unfold hexPair
    rw [hexNumber_hexUpper _ (by omega), hexNumber_hexUpper _ (by omega)]
    simp only [Option.some.injEq]
    rw [Nat.div_add_mod', UInt8.ofNat_toNat]
  unfold escapeByte
  simp only [List.cons_append, List.nil_append]
  rw [decodeEscapes, hpair]

theorem decodeEscapes_escapeBytes (bytes : List UInt8) (s : List Char) :
    decodeEscapes (bytes.flatMap escapeByte ++ s) = bytes ++ decodeEscapes s := by
  induction bytes with
  | nil => rfl
  | cons v bytes ih =>
    rw [List.flatMap_cons, List.append_assoc, decodeEscapes_escapeByte, ih]
    rfl

theorem decodeEscapes_percent (h : ∀ a b s', s = a :: b :: s' → hexPair a b = none) :
    decodeEscapes ('%' :: s) = 0x25 :: decodeEscapes s := by
  cases s with
  | nil => rfl
  | cons a s =>
    cases s with
    | nil => simp [decodeEscapes, toUtf8_percent]
    | cons b s =>
      rw [decodeEscapes, h a b s rfl]

theorem toUtf8_cons (c : Char) (s : List Char) : toUtf8 (c :: s) = toUtf8 [c] ++ toUtf8 s :=
  toUtf8_append [c] s

/-- A text without escapes is decoded to its own bytes. -/
theorem decodeEscapes_of_not (h : hasEscape t = false) : decodeEscapes t = toUtf8 t := by
  fun_induction hasEscape t with
  | case1 a b s ih =>
    obtain ⟨hpair, hs⟩ := Bool.or_eq_false_iff.mp h
    rw [decodeEscapes, Option.isSome_eq_false_iff.mp hpair |> Option.isNone_iff_eq_none.mp,
      toUtf8_cons, toUtf8_percent, ih hs]
    rfl
  | case2 c s hshort ih =>
    rw [toUtf8_cons, ← ih h]
    rw [decodeEscapes]
    exact hshort
  | case3 => rfl

theorem hasEscape_of_not_mem (h : '%' ∉ t) : hasEscape t = false := by
  fun_induction hasEscape t with
  | case1 a b s ih => exact absurd List.mem_cons_self h
  | case2 c s hshort ih => exact ih fun hmem => h (List.mem_cons_of_mem _ hmem)
  | case3 => rfl

theorem hasEscape_cons (h : hasEscape s = true) (c : Char) : hasEscape (c :: s) = true := by
  by_cases hlong : ∃ a b s', c = '%' ∧ s = a :: b :: s'
  · obtain ⟨a, b, s', rfl, rfl⟩ := hlong
    rw [hasEscape, h, Bool.or_true]
  · rw [hasEscape]
    · exact h
    · exact fun a b s' hc hs => hlong ⟨a, b, s', hc, hs⟩

theorem hasEscape_of_hexPair {x y : Char} (h : (hexPair x y).isSome = true) (a b : List Char) :
    hasEscape (a ++ '%' :: x :: y :: b) = true := by
  induction a with
  | nil => rw [List.nil_append, hasEscape, h, Bool.true_or]
  | cons c a ih => exact hasEscape_cons ih c

theorem length_toUtf8_pos (c : Char) : 0 < (toUtf8 [c]).length := by
  rw [length_toUtf8_singleton]
  exact c.utf8Size_pos

theorem length_decodeEscapes_le (t : List Char) :
    (decodeEscapes t).length ≤ (toUtf8 t).length := by
  fun_induction decodeEscapes t with
  | case1 a b s v hpair ih =>
    rw [toUtf8_cons, toUtf8_cons a, toUtf8_cons b]
    simp only [List.length_append, List.length_cons]
    have := length_toUtf8_pos '%'
    omega
  | case2 a b s hpair ih =>
    rw [toUtf8_cons, toUtf8_percent]
    simp only [List.length_append, List.length_cons, List.length_nil]
    omega
  | case3 c s hshort ih =>
    rw [toUtf8_cons c s]
    simp only [List.length_append]
    omega
  | case4 => exact Nat.le_refl 0

/-- An escape makes a text shorter. -/
theorem length_decodeEscapes_lt (h : hasEscape t = true) :
    (decodeEscapes t).length < (toUtf8 t).length := by
  fun_induction hasEscape t with
  | case1 a b s ih =>
    rw [decodeEscapes, toUtf8_cons, toUtf8_percent]
    cases hpair : hexPair a b with
    | some v =>
      have := length_decodeEscapes_le s
      have := length_toUtf8_pos a
      have := length_toUtf8_pos b
      rw [toUtf8_cons a, toUtf8_cons b]
      simp only [List.length_append, List.length_cons, List.length_nil]
      omega
    | none =>
      rw [hpair] at h
      have := ih (by simpa using h)
      simp only [List.length_append, List.length_cons, List.length_nil]
      omega
  | case2 c s hshort ih =>
    rw [decodeEscapes, toUtf8_cons c s]
    · have := ih h
      simp only [List.length_append]
      omega
    · exact hshort
  | case3 => cases h

/-! ## Encoding -/

/-- What makes up escapes is not escaped. -/
structure EscapesSafely (encodes : Char → Bool) : Prop where
  percent : encodes '%' = false
  hex : ∀ c, (hexNumber c).isSome = true → encodes c = false

theorem toNat_lt_of_hexNumber (h : (hexNumber c).isSome = true) : c.toNat < 128 := by
  have hle : ∀ d : Char, c ≤ d → c.toNat ≤ d.toNat := fun d hd => hd
  by_contra hlarge
  have hdigit : c.isDigit = false := by
    by_contra hd
    have hnine := (Char.isDigit_iff_toNat.mp (by simpa using hd)).2
    exact hlarge (Nat.lt_of_le_of_lt hnine (by decide))
  have hupper : ¬ c ≤ 'F' := fun hc => hlarge (Nat.lt_of_le_of_lt (hle _ hc) (by decide))
  have hlower : ¬ c ≤ 'f' := fun hc => hlarge (Nat.lt_of_le_of_lt (hle _ hc) (by decide))
  simp [hexNumber, hdigit, hupper, hlower] at h

theorem EscapesSafely.of_ascii (hpercent : encodes '%' = false)
    (h : ∀ n < 128, (hexNumber (Char.ofNat n)).isSome = true → encodes (Char.ofNat n) = false) :
    EscapesSafely encodes where
  percent := hpercent
  hex c hc := by
    have hascii := h c.toNat (toNat_lt_of_hexNumber hc)
    rw [Char.ofNat_toNat] at hascii
    exact hascii hc

theorem percentEncode_cons_of_not (h : encodes c = false) (s : List Char) :
    percentEncode encodes (c :: s) = c :: percentEncode encodes s := by
  simp [percentEncode, h]

theorem percentEncode_cons (h : encodes c = true) (s : List Char) :
    percentEncode encodes (c :: s) =
      (toUtf8 [c]).flatMap escapeByte ++ percentEncode encodes s := by
  simp [percentEncode, h]

theorem percentEncode_append (s t : List Char) :
    percentEncode encodes (s ++ t) = percentEncode encodes s ++ percentEncode encodes t :=
  List.flatMap_append

theorem percentEncode_of_not (h : ∀ c ∈ s, encodes c = false) : percentEncode encodes s = s := by
  induction s with
  | nil => rfl
  | cons c s ih =>
    rw [percentEncode_cons_of_not (h c List.mem_cons_self),
      ih fun x hx => h x (List.mem_cons_of_mem _ hx)]

theorem hexUpper_mem (n : Nat) : hexUpper n ∈ "0123456789ABCDEF".toList := by
  unfold hexUpper
  rw [List.getD_eq_getElem?_getD]
  cases h : "0123456789ABCDEF".toList[n]? with
  | none => decide
  | some c => exact List.mem_of_getElem? h

theorem mem_flatMap_escapeByte {bytes : List UInt8} (h : c ∈ bytes.flatMap escapeByte) :
    c ∈ '%' :: "0123456789ABCDEF".toList := by
  obtain ⟨v, -, hv⟩ := List.mem_flatMap.mp h
  simp only [escapeByte, List.mem_cons, List.not_mem_nil, or_false] at hv
  rcases hv with rfl | rfl | rfl
  · exact List.mem_cons_self
  · exact List.mem_cons_of_mem _ (hexUpper_mem _)
  · exact List.mem_cons_of_mem _ (hexUpper_mem _)

theorem mem_percentEncode (h : c ∈ percentEncode encodes s) :
    c ∈ '%' :: "0123456789ABCDEF".toList ∨ c ∈ s ∧ encodes c = false := by
  obtain ⟨x, hx, hc⟩ := List.mem_flatMap.mp h
  split at hc
  · exact .inl (mem_flatMap_escapeByte hc)
  · rename_i hencodes
    rw [List.mem_singleton.mp hc]
    exact .inr ⟨hx, by simpa using hencodes⟩

/-- Characters that are neither escaped nor part of escapes are taken out before or after. -/
theorem filter_percentEncode {keep : Char → Bool}
    (hescape : ∀ c ∈ '%' :: "0123456789ABCDEF".toList, keep c = true)
    (hencodes : ∀ c, encodes c = true → keep c = true) (s : List Char) :
    (percentEncode encodes s).filter keep = percentEncode encodes (s.filter keep) := by
  induction s with
  | nil => rfl
  | cons c s ih =>
    cases hc : encodes c with
    | true =>
      rw [percentEncode_cons hc, List.filter_append, ih, List.filter_cons_of_pos (hencodes c hc),
        percentEncode_cons hc,
        List.filter_eq_self.mpr fun x hx => hescape x (mem_flatMap_escapeByte hx)]
    | false =>
      rw [percentEncode_cons_of_not hc]
      cases hkeep : keep c with
      | true =>
        rw [List.filter_cons_of_pos hkeep, ih, List.filter_cons_of_pos hkeep,
          percentEncode_cons_of_not hc]
      | false =>
        rw [List.filter_cons_of_neg (by simp [hkeep]), ih, List.filter_cons_of_neg (by simp [hkeep])]

theorem exists_percent (c : Char) : ∃ r, (toUtf8 [c]).flatMap escapeByte = '%' :: r := by
  have hpos := length_toUtf8_pos c
  obtain ⟨v, bytes, hbytes⟩ := List.exists_cons_of_length_pos hpos
  exact ⟨_, by rw [hbytes]; rfl⟩

theorem hexPair_percent_left (b : Char) : hexPair '%' b = none := rfl

theorem hexPair_percent_right (a : Char) : hexPair a '%' = none := by
  have hnumber : hexNumber '%' = none := by decide
  unfold hexPair
  rw [hnumber]
  cases hexNumber a <;> rfl

/-- No escape comes about by escaping what follows a percent sign. -/
theorem hexPair_percentEncode (h : ∀ a b s', s = a :: b :: s' → hexPair a b = none) :
    ∀ a b s', percentEncode encodes s = a :: b :: s' → hexPair a b = none := by
  intro a b s' hencode
  cases s with
  | nil => cases hencode
  | cons x s =>
    cases hx : encodes x with
    | true =>
      obtain ⟨r, hr⟩ := exists_percent x
      rw [percentEncode_cons hx, hr] at hencode
      rw [← (List.cons.inj hencode).1]
      exact hexPair_percent_left b
    | false =>
      rw [percentEncode_cons_of_not hx] at hencode
      obtain ⟨rfl, htail⟩ := List.cons.inj hencode
      cases s with
      | nil => cases htail
      | cons y s =>
        cases hy : encodes y with
        | true =>
          obtain ⟨r, hr⟩ := exists_percent y
          rw [percentEncode_cons hy, hr] at htail
          obtain ⟨rfl, -⟩ := List.cons.inj htail
          exact hexPair_percent_right x
        | false =>
          rw [percentEncode_cons_of_not hy] at htail
          obtain ⟨rfl, -⟩ := List.cons.inj htail
          exact h x y s rfl

theorem hexNumber_of_hexPair {v : UInt8} {a b : Char} (h : hexPair a b = some v) :
    (hexNumber a).isSome = true ∧ (hexNumber b).isSome = true := by
  unfold hexPair at h
  split at h
  · rename_i x y ha hb
    rw [ha, hb]
    exact ⟨rfl, rfl⟩
  · cases h

/-- Escaping changes nothing about what is decoded. -/
theorem decodeEscapes_percentEncode (hsafe : EscapesSafely encodes) (t : List Char) :
    decodeEscapes (percentEncode encodes t) = decodeEscapes t := by
  fun_induction decodeEscapes t with
  | case1 a b s v hpair ih =>
    obtain ⟨ha, hb⟩ := hexNumber_of_hexPair hpair
    rw [percentEncode_cons_of_not hsafe.percent, percentEncode_cons_of_not (hsafe.hex a ha),
      percentEncode_cons_of_not (hsafe.hex b hb), decodeEscapes, hpair, ih]
  | case2 a b s hpair ih =>
    have hnone : ∀ a' b' s', a :: b :: s = a' :: b' :: s' → hexPair a' b' = none := by
      intro a' b' s' heq
      rw [← (List.cons.inj heq).1, ← (List.cons.inj (List.cons.inj heq).2).1]
      exact hpair
    rw [percentEncode_cons_of_not hsafe.percent,
      decodeEscapes_percent (hexPair_percentEncode hnone), ih]
  | case3 c s hshort ih =>
    cases hc : encodes c with
    | true => rw [percentEncode_cons hc, decodeEscapes_escapeBytes, ih]
    | false =>
      rw [percentEncode_cons_of_not hc]
      by_cases hpercent : c = '%'
      · have hnone : ∀ a b s', s = a :: b :: s' → hexPair a b = none :=
          fun a b s' hs => (hshort a b s' hpercent hs).elim
        rw [hpercent, decodeEscapes_percent (hexPair_percentEncode hnone), ih, toUtf8_percent]
        rfl
      · rw [decodeEscapes_cons hpercent, ih]
  | case4 => rfl

/-- Texts around a character that is in no escape are decoded by themselves. -/
theorem decodeEscapes_append (hc : c ≠ '%') (hhex : hexNumber c = none) (a b : List Char) :
    decodeEscapes (a ++ c :: b) = decodeEscapes a ++ (toUtf8 [c] ++ decodeEscapes b) := by
  have hleft : ∀ x, hexPair c x = none := by
    intro x
    unfold hexPair
    rw [hhex]
  have hright : ∀ x, hexPair x c = none := by
    intro x
    unfold hexPair
    rw [hhex]
    cases hexNumber x <;> rfl
  fun_induction decodeEscapes a with
  | case1 x y s v hpair ih =>
    simp only [List.cons_append]
    rw [decodeEscapes, hpair, ih]
  | case2 x y s hpair ih =>
    simp only [List.cons_append] at ih ⊢
    rw [decodeEscapes, hpair, ih]
  | case3 x s hshort ih =>
    rw [List.cons_append, List.append_assoc, ← ih]
    by_cases hx : x = '%'
    · rw [hx, decodeEscapes_percent, toUtf8_percent]
      · rfl
      · intro p q s' heq
        cases s with
        | nil =>
          rw [← (List.cons.inj heq).1]
          exact hleft q
        | cons y s =>
          cases s with
          | nil =>
            rw [← (List.cons.inj (List.cons.inj heq).2).1]
            exact hright p
          | cons z s => exact (hshort y z s hx rfl).elim
    · exact decodeEscapes_cons hx _
  | case4 => exact decodeEscapes_cons hc b

theorem hasEscape_iff : hasEscape t = true ↔ (decodeEscapes t).length < (toUtf8 t).length := by
  refine ⟨length_decodeEscapes_lt, fun h => ?_⟩
  by_contra hnot
  rw [decodeEscapes_of_not (by simpa using hnot)] at h
  exact Nat.lt_irrefl _ h

theorem hasEscape_append (hc : c ≠ '%') (hhex : hexNumber c = none) (a b : List Char) :
    hasEscape (a ++ c :: b) = true ↔ hasEscape a = true ∨ hasEscape b = true := by
  have ha := length_decodeEscapes_le a
  have hb := length_decodeEscapes_le b
  rw [hasEscape_iff, hasEscape_iff, hasEscape_iff, decodeEscapes_append hc hhex, toUtf8_append,
    toUtf8_cons c b]
  simp only [List.length_append]
  omega

/-- Characters that are in no escape are as good as each other. -/
theorem length_decodeEscapes_map {f : Char → Char}
    (hsize : ∀ c, (toUtf8 [f c]).length = (toUtf8 [c]).length)
    (hpercent : ∀ c, f c = '%' ↔ c = '%') (hhex : ∀ c, hexNumber (f c) = hexNumber c)
    (t : List Char) : (decodeEscapes (t.map f)).length = (decodeEscapes t).length := by
  have hpair : ∀ a b, hexPair (f a) (f b) = hexPair a b := by
    intro a b
    unfold hexPair
    rw [hhex, hhex]
  have hkeep : f '%' = '%' := (hpercent '%').mpr rfl
  fun_induction decodeEscapes t with
  | case1 a b s v hv ih =>
    rw [List.map_cons, List.map_cons, List.map_cons, hkeep, decodeEscapes, hpair, hv]
    simp only [List.length_cons, ih]
  | case2 a b s hv ih =>
    rw [List.map_cons, List.map_cons] at ih
    rw [List.map_cons, List.map_cons, List.map_cons, hkeep, decodeEscapes, hpair, hv]
    simp only [List.length_cons, ih]
  | case3 c s hshort ih =>
    rw [List.map_cons, decodeEscapes, List.length_append, List.length_append, hsize, ih]
    intro a b s' hc hs
    obtain ⟨x, s1, rfl, rfl, hs1⟩ := List.map_eq_cons_iff.mp hs
    obtain ⟨y, s2, rfl, rfl, -⟩ := List.map_eq_cons_iff.mp hs1
    exact hshort x y s2 ((hpercent c).mp hc) rfl
  | case4 => rfl

end Decode

end Lyra.Lib
