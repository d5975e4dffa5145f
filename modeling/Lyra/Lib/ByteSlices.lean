import Mathlib.Algebra.GroupWithZero.Nat
import Mathlib.Data.List.Forall2
import Mathlib.Algebra.BigOperators.Group.List.Basic

/-!
# Texts cut at byte offsets

A text is cut at offsets of its UTF-8 form, and a cut through a character is a panic.

* `byteSlice_eq_none`: a slice panics where a character lies across one of its ends;
* `byteSlice_eq_some`: else it is the characters between them;
* `between_eq_none`: a slice from the first place of a character to the last one of another
  panics where they are swapped;
* `cutAt_isSome`: a text can be cut at a limit where no character lies across it;
* `readSlices_eq_none`, `readSlices_eq_some`: a row of slices, read one after the other until one
  is no number.
-/

namespace Lyra.Lib

variable {s t u v : List Char} {k a b : Nat}

/-! ## Offsets -/

/-- The length of the UTF-8 form. -/
def byteLength (s : List Char) : Nat := (s.map Char.utf8Size).sum

/-- `str::split_at`, without the end of the text. -/
def splitBytes : Nat → List Char → Option (List Char × List Char)
  | 0, s => some ([], s)
  | _ + 1, [] => none
  | k + 1, c :: s =>
    if c.utf8Size ≤ k + 1 then (splitBytes (k + 1 - c.utf8Size) s).map fun (x, y) => (c :: x, y)
    else none

/-- `&s[a..b]`. -/
def byteSlice (s : List Char) (a b : Nat) : Option (List Char) := do
  let (_, rest) ← splitBytes a s
  let (part, _) ← splitBytes (b - a) rest
  return part

/-- The offset is inside a character. -/
def Straddles (s : List Char) (k : Nat) : Prop :=
  ∃ x c y, s = x ++ c :: y ∧ byteLength x < k ∧ k < byteLength x + c.utf8Size

@[simp] theorem byteLength_nil : byteLength [] = 0 := rfl

@[simp] theorem byteLength_cons (c : Char) (s : List Char) :
    byteLength (c :: s) = c.utf8Size + byteLength s := by
  simp [byteLength]

@[simp] theorem byteLength_append (s t : List Char) :
    byteLength (s ++ t) = byteLength s + byteLength t := by
  simp [byteLength]

theorem length_le_byteLength (s : List Char) : s.length ≤ byteLength s := by
  induction s with
  | nil => simp
  | cons c s ih =>
    have hc := c.utf8Size_pos
    simp only [List.length_cons, byteLength_cons]
    omega

theorem eq_nil_of_byteLength (h : byteLength s = 0) : s = [] := by
  have hlen := length_le_byteLength s
  exact List.eq_nil_of_length_eq_zero (by omega)

theorem byteLength_ascii (h : ∀ c ∈ s, c.utf8Size = 1) : byteLength s = s.length := by
  induction s with
  | nil => rfl
  | cons c s ih =>
    rw [byteLength_cons, h c List.mem_cons_self,
      ih fun d hd => h d (List.mem_cons_of_mem _ hd), List.length_cons, Nat.add_comm]

theorem singleton_of_byteLength (h : byteLength s = 1) : ∃ c, s = [c] ∧ c.utf8Size = 1 := by
  cases s with
  | nil => simp at h
  | cons c s =>
    have hc := c.utf8Size_pos
    rw [byteLength_cons] at h
    obtain rfl := eq_nil_of_byteLength (s := s) (by omega)
    exact ⟨c, rfl, by omega⟩

/-! ## One cut -/

theorem splitBytes_append (s t : List Char) : splitBytes (byteLength s) (s ++ t) = some (s, t) := by
  induction s with
  | nil =>
    rw [byteLength_nil, List.nil_append]
    unfold splitBytes
    rfl
  | cons c s ih =>
    obtain ⟨n, hn⟩ : ∃ n, byteLength (c :: s) = n + 1 := by
      have hc := c.utf8Size_pos
      exact ⟨byteLength (c :: s) - 1, by rw [byteLength_cons]; omega⟩
    have hrest : n + 1 - c.utf8Size = byteLength s := by
      rw [byteLength_cons] at hn
      omega
    have hle : c.utf8Size ≤ n + 1 := by
      rw [byteLength_cons] at hn
      omega
    rw [hn, List.cons_append, splitBytes, if_pos hle, hrest, ih]
    rfl

theorem splitBytes_sound (h : splitBytes k s = some (u, v)) : s = u ++ v ∧ byteLength u = k := by
  induction s generalizing k u with
  | nil =>
    cases k with
    | zero =>
      simp only [splitBytes, Option.some.injEq, Prod.mk.injEq] at h
      obtain ⟨rfl, rfl⟩ := h
      exact ⟨rfl, rfl⟩
    | succ k => simp [splitBytes] at h
  | cons c s ih =>
    cases k with
    | zero =>
      simp only [splitBytes, Option.some.injEq, Prod.mk.injEq] at h
      obtain ⟨rfl, rfl⟩ := h
      exact ⟨rfl, rfl⟩
    | succ k =>
      rw [splitBytes] at h
      split at h
      · rename_i hle
        obtain ⟨⟨x, y⟩, hxy, heq⟩ := Option.map_eq_some_iff.mp h
        simp only [Prod.mk.injEq] at heq
        obtain ⟨rfl, rfl⟩ := heq
        obtain ⟨rfl, hlen⟩ := ih hxy
        refine ⟨rfl, ?_⟩
        rw [byteLength_cons]
        omega
      · cases h

theorem splitBytes_eq_some : splitBytes k s = some (u, v) ↔ s = u ++ v ∧ byteLength u = k := by
  constructor
  · exact splitBytes_sound
  · rintro ⟨rfl, rfl⟩
    exact splitBytes_append u v

theorem straddles_cons {c : Char} (hk : c.utf8Size ≤ k) :
    Straddles (c :: s) k ↔ Straddles s (k - c.utf8Size) := by
  constructor
  · rintro ⟨x, d, y, heq, hlt, hgt⟩
    cases x with
    | nil =>
      -- the first character ends before the offset
      simp only [List.nil_append, List.cons.injEq] at heq
      obtain ⟨rfl, rfl⟩ := heq
      simp only [byteLength_nil, Nat.zero_add] at hgt
      omega
    | cons e x =>
      simp only [List.cons_append, List.cons.injEq] at heq
      obtain ⟨rfl, rfl⟩ := heq
      rw [byteLength_cons] at hlt hgt
      exact ⟨x, d, y, rfl, by omega, by omega⟩
  · rintro ⟨x, d, y, rfl, hlt, hgt⟩
    refine ⟨c :: x, d, y, rfl, ?_, ?_⟩
    · rw [byteLength_cons]
      omega
    · rw [byteLength_cons]
      omega

/-- Inside the text, a cut fails within a character only. -/
theorem splitBytes_eq_none (hk : k ≤ byteLength s) : splitBytes k s = none ↔ Straddles s k := by
  induction s generalizing k with
  | nil =>
    obtain rfl : k = 0 := by simpa using hk
    simp [splitBytes, Straddles]
  | cons c s ih =>
    cases k with
    | zero => simp [splitBytes, Straddles]
    | succ k =>
      rw [splitBytes]
      split
      · rename_i hle
        rw [byteLength_cons] at hk
        rw [Option.map_eq_none_iff, ih (by omega), straddles_cons hle]
      · rename_i hle
        refine iff_of_true rfl ⟨[], c, s, rfl, ?_, ?_⟩
        · simp
        · simp only [byteLength_nil, Nat.zero_add]
          omega

/-! ## Slices -/

theorem byteSlice_eq_some :
    byteSlice s a b = some t ↔
      ∃ u v, s = u ++ t ++ v ∧ byteLength u = a ∧ byteLength t = b - a := by
  unfold byteSlice
  simp only [Option.bind_eq_bind, Option.bind_eq_some_iff, Prod.exists, splitBytes_eq_some]
  constructor
  · rintro ⟨u, w, ⟨rfl, ha⟩, t', v, ⟨rfl, hb⟩, ht⟩
    obtain rfl : t' = t := by simpa using ht
    exact ⟨u, v, (List.append_assoc u t' v).symm, ha, hb⟩
  · rintro ⟨u, v, rfl, ha, hb⟩
    exact ⟨u, t ++ v, ⟨List.append_assoc u t v, ha⟩, t, v, ⟨rfl, hb⟩, rfl⟩

theorem straddles_append (s t : List Char) :
    Straddles (s ++ t) (byteLength s + k) ↔ Straddles t k := by
  induction s with
  | nil => simp
  | cons c s ih =>
    rw [List.cons_append, byteLength_cons, straddles_cons (by omega), ← ih]
    have hk : c.utf8Size + byteLength s + k - c.utf8Size = byteLength s + k := by omega
    rw [hk]

/-- A slice panics where a character lies across one of its ends. -/
theorem byteSlice_eq_none (hab : a ≤ b) (hb : b ≤ byteLength s) :
    byteSlice s a b = none ↔ Straddles s a ∨ Straddles s b := by
  have ha : a ≤ byteLength s := Nat.le_trans hab hb
  cases hcut : splitBytes a s with
  | none =>
    refine iff_of_true ?_ (Or.inl ((splitBytes_eq_none ha).mp hcut))
    simp [byteSlice, hcut]
  | some parts =>
    obtain ⟨u, w⟩ := parts
    have hno : ¬Straddles s a := by
      rw [← splitBytes_eq_none ha, hcut]
      simp
    obtain ⟨rfl, rfl⟩ := splitBytes_sound hcut
    rw [byteLength_append] at hb
    have hrest : splitBytes (b - byteLength u) w = none ↔ Straddles (u ++ w) b := by
      rw [splitBytes_eq_none (by omega), ← straddles_append u w]
      have hb' : byteLength u + (b - byteLength u) = b := by omega
      rw [hb']
    rw [or_iff_right hno, ← hrest]
    cases hpart : splitBytes (b - byteLength u) w with
    | none => simp [byteSlice, hcut, hpart]
    | some q => simp [byteSlice, hcut, hpart]

/-- What stands behind a slice does not matter. -/
theorem byteSlice_append (hab : a ≤ b) (hb : b ≤ byteLength s) :
    byteSlice (s ++ t) a b = byteSlice s a b := by
  have hsplit : ∀ {k : Nat} {x : List Char}, k ≤ byteLength x →
      splitBytes k (x ++ t) = (splitBytes k x).map fun (p, q) => (p, q ++ t) := by
    intro k x hk
    induction x generalizing k with
    | nil =>
      obtain rfl : k = 0 := by simpa using hk
      simp [splitBytes]
    | cons c x ih =>
      cases k with
      | zero => simp [splitBytes]
      | succ k =>
        rw [List.cons_append, splitBytes, splitBytes]
        split
        · rw [byteLength_cons] at hk
          rw [ih (by omega), Option.map_map, Option.map_map]
          rfl
        · rfl
  unfold byteSlice
  rw [hsplit (Nat.le_trans hab hb)]
  cases hcut : splitBytes a s with
  | none => rfl
  | some parts =>
    obtain ⟨u, w⟩ := parts
    obtain ⟨rfl, rfl⟩ := splitBytes_sound hcut
    rw [byteLength_append] at hb
    simp only [Option.map_some, Option.bind_eq_bind, Option.bind_some]
    rw [hsplit (by omega)]
    cases splitBytes (b - byteLength u) w with
    | none => rfl
    | some q => rfl

theorem splitBytes_shift (u s : List Char) (k : Nat) :
    splitBytes (byteLength u + k) (u ++ s) =
      (splitBytes k s).map fun (p, q) => (u ++ p, q) := by
  induction u with
  | nil => simp
  | cons c u ih =>
    have hc := c.utf8Size_pos
    obtain ⟨n, hn⟩ : ∃ n, byteLength (c :: u) + k = n + 1 :=
      ⟨byteLength (c :: u) + k - 1, by rw [byteLength_cons]; omega⟩
    have hrest : n + 1 - c.utf8Size = byteLength u + k := by
      rw [byteLength_cons] at hn
      omega
    have hle : c.utf8Size ≤ n + 1 := by
      rw [byteLength_cons] at hn
      omega
    rw [hn, List.cons_append, splitBytes, if_pos hle, hrest, ih, Option.map_map]
    rfl

theorem byteSlice_shift (u s : List Char) (a b : Nat) :
    byteSlice (u ++ s) (byteLength u + a) (byteLength u + b) = byteSlice s a b := by
  have hb : byteLength u + b - (byteLength u + a) = b - a := by omega
  unfold byteSlice
  rw [splitBytes_shift u s a, hb]
  cases splitBytes a s with
  | none => rfl
  | some parts => rfl

/-! ## Characters by their offset -/

/-- `str::find` of a character. -/
def findByte (c : Char) : List Char → Option Nat
  | [] => none
  | d :: s => if d = c then some 0 else (findByte c s).map (d.utf8Size + ·)

/-- `str::rfind` of a character. -/
def rfindByte (c : Char) : List Char → Option Nat
  | [] => none
  | d :: s =>
    match rfindByte c s with
    | some k => some (d.utf8Size + k)
    | none => if d = c then some 0 else none

/-- `&s[a..=b]`; a slice that starts behind its end is a panic. -/
def byteSliceIncl (s : List Char) (a b : Nat) : Option (List Char) :=
  if a ≤ b + 1 then byteSlice s a (b + 1) else none

section Searching

variable {c d : Char}

theorem findByte_eq_none : findByte c s = none ↔ c ∉ s := by
  induction s with
  | nil => simp [findByte]
  | cons d s ih =>
    rw [findByte]
    split
    · rename_i hd
      simp [hd]
    · rename_i hd
      rw [Option.map_eq_none_iff, ih, List.mem_cons, not_or]
      exact ⟨fun h => ⟨fun hc => hd hc.symm, h⟩, And.right⟩

theorem findByte_sound (h : findByte c s = some k) :
    ∃ u v, s = u ++ c :: v ∧ c ∉ u ∧ byteLength u = k := by
  induction s generalizing k with
  | nil => cases h
  | cons d s ih =>
    rw [findByte] at h
    split at h
    · rename_i hd
      obtain rfl := Option.some.inj h
      exact ⟨[], s, by rw [hd]; rfl, List.not_mem_nil, rfl⟩
    · rename_i hd
      obtain ⟨k, hk, rfl⟩ := Option.map_eq_some_iff.mp h
      obtain ⟨u, v, rfl, hu, rfl⟩ := ih hk
      refine ⟨d :: u, v, rfl, ?_, byteLength_cons d u⟩
      rw [List.mem_cons, not_or]
      exact ⟨fun hc => hd hc.symm, hu⟩

theorem findByte_append (hu : c ∉ u) : findByte c (u ++ c :: v) = some (byteLength u) := by
  induction u with
  | nil => rw [List.nil_append, findByte, if_pos rfl, byteLength_nil]
  | cons d u ih =>
    rw [List.mem_cons, not_or] at hu
    rw [List.cons_append, findByte, if_neg fun hd => hu.1 hd.symm, ih hu.2, byteLength_cons]
    rfl

theorem rfindByte_eq_none : rfindByte c s = none ↔ c ∉ s := by
  induction s with
  | nil => simp [rfindByte]
  | cons d s ih =>
    rw [rfindByte, List.mem_cons, not_or, ← ih]
    cases rfindByte c s with
    | some k => simp
    | none => simp [eq_comm]

theorem rfindByte_sound (h : rfindByte c s = some k) :
    ∃ u v, s = u ++ c :: v ∧ c ∉ v ∧ byteLength u = k := by
  induction s generalizing k with
  | nil => cases h
  | cons d s ih =>
    rw [rfindByte] at h
    cases hs : rfindByte c s with
    | some n =>
      rw [hs] at h
      obtain rfl := Option.some.inj h
      obtain ⟨u, v, rfl, hv, rfl⟩ := ih hs
      exact ⟨d :: u, v, rfl, hv, byteLength_cons d u⟩
    | none =>
      rw [hs] at h
      simp only [Option.ite_none_right_eq_some, Option.some.injEq] at h
      obtain ⟨rfl, rfl⟩ := h
      exact ⟨[], s, rfl, rfindByte_eq_none.mp hs, rfl⟩

theorem rfindByte_append (hv : c ∉ v) : rfindByte c (u ++ c :: v) = some (byteLength u) := by
  induction u with
  | nil => rw [List.nil_append, rfindByte, rfindByte_eq_none.mpr hv]; simp
  | cons d u ih => rw [List.cons_append, rfindByte, ih, byteLength_cons]

theorem byteSliceIncl_between (hd : d.utf8Size = 1) :
    byteSliceIncl (u ++ c :: t ++ d :: v) (byteLength u) (byteLength (u ++ c :: t)) =
      some (c :: t ++ [d]) := by
  unfold byteSliceIncl
  rw [if_pos (by rw [byteLength_append]; omega), byteSlice_eq_some]
  refine ⟨u, v, by simp, rfl, ?_⟩
  simp only [byteLength_append, byteLength_cons, byteLength_nil, hd]
  omega

/-- From the first `c` to the last `d`; the outer option is none where the slice panics, the inner
one without such characters. -/
def between (c d : Char) (s : List Char) : OptionT Option (List Char) := do
  let a ← OptionT.mk (some (findByte c s))
  let b ← OptionT.mk (some (rfindByte d s))
  OptionT.lift (byteSliceIncl s a b)

/-- Every `d` stands before every `c`, and there is something between them. -/
def Swapped (c d : Char) (s : List Char) : Prop :=
  ∃ u m v, s = u ++ d :: m ++ c :: v ∧ m ≠ [] ∧ c ∉ u ++ d :: m ∧ d ∉ m ++ c :: v

theorem run_between {a b : Nat} (ha : findByte c s = some a) (hb : rfindByte d s = some b) :
    (between c d s).run = (byteSliceIncl s a b).map some := by
  unfold between
  rw [ha, hb]
  simp only [OptionT.run_bind, OptionT.run_mk, OptionT.run_lift, Option.elimM]
  exact Option.map_eq_bind.symm

/-- Behind a `d`, the slice is empty or a panic. -/
theorem run_between_swapped (hd : d.utf8Size = 1) (hc : c ∉ u ++ d :: t)
    (hd' : d ∉ t ++ c :: v) :
    (between c d (u ++ d :: t ++ c :: v)).run = if t = [] then some (some []) else none := by
  have hlast := rfindByte_append (u := u) hd'
  rw [← List.cons_append, ← List.append_assoc] at hlast
  rw [run_between (findByte_append hc) hlast]
  unfold byteSliceIncl
  cases t with
  | nil =>
    have hslice : byteSlice (u ++ [d] ++ c :: v) (byteLength (u ++ [d])) (byteLength u + 1) =
        some [] := by
      rw [byteSlice_eq_some]
      exact ⟨u ++ [d], c :: v, by simp, rfl, by simp [hd]⟩
    rw [if_pos (by simp [hd]), if_pos rfl, hslice]
    rfl
  | cons e t =>
    have he := e.utf8Size_pos
    rw [if_neg (by simp only [byteLength_append, byteLength_cons, hd]; omega),
      if_neg (List.cons_ne_nil _ _)]
    rfl

theorem run_between_ordered (hd : d.utf8Size = 1) (hc : c ∉ u) (hd' : d ∉ v) :
    (between c d (u ++ c :: t ++ d :: v)).run = some (some (c :: t ++ [d])) := by
  have hfirst := findByte_append (v := t ++ d :: v) hc
  rw [← List.cons_append, ← List.append_assoc] at hfirst
  rw [run_between hfirst (rfindByte_append hd'), byteSliceIncl_between hd]
  rfl

/-- The first `c` and the last `d` of a text that has both. -/
theorem ordered_or_swapped (hne : c ≠ d) (hc : c ∈ s) (hd : d ∈ s) :
    (∃ u m v, s = u ++ c :: m ++ d :: v ∧ c ∉ u ∧ d ∉ v) ∨
      ∃ u m v, s = u ++ d :: m ++ c :: v ∧ c ∉ u ++ d :: m ∧ d ∉ m ++ c :: v := by
  obtain ⟨a, ha⟩ := Option.ne_none_iff_exists'.mp fun h => findByte_eq_none.mp h hc
  obtain ⟨b, hb⟩ := Option.ne_none_iff_exists'.mp fun h => rfindByte_eq_none.mp h hd
  obtain ⟨u, v, hs, hu, -⟩ := findByte_sound ha
  obtain ⟨x, y, hs', hy, -⟩ := rfindByte_sound hb
  rcases List.append_eq_append_iff.mp (hs.symm.trans hs') with ⟨m, hm, hrest⟩ | ⟨m, hm, hrest⟩
  · cases m with
    | nil => exact absurd (List.cons.inj hrest).1 hne
    | cons e m =>
      obtain ⟨rfl, rfl⟩ := List.cons.inj hrest
      exact .inl ⟨u, m, y, by rw [hs', hm], hu, hy⟩
  · cases m with
    | nil => exact absurd (List.cons.inj hrest).1.symm hne
    | cons e m =>
      obtain ⟨rfl, rfl⟩ := List.cons.inj hrest
      exact .inr ⟨x, m, v, by rw [hs, hm], hm ▸ hu, hy⟩

/-- The slice panics exactly where the characters are swapped. -/
theorem between_eq_none (hd : d.utf8Size = 1) (hne : c ≠ d) :
    (between c d s).run = none ↔ Swapped c d s := by
  constructor
  · intro h
    have hmem : c ∈ s ∧ d ∈ s := by
      rw [← not_not (a := c ∈ s), ← not_not (a := d ∈ s), ← findByte_eq_none, ← rfindByte_eq_none]
      constructor
      · intro hnone
        simp [between, hnone, Option.elimM] at h
      · intro hnone
        simp only [between, hnone, OptionT.run_bind, OptionT.run_mk, Option.elimM] at h
        cases hfirst : findByte c s with
        | none => simp [hfirst] at h
        | some a => simp [hfirst] at h
    rcases ordered_or_swapped hne hmem.1 hmem.2 with
      ⟨u, m, v, rfl, hu, hv⟩ | ⟨u, m, v, rfl, hu, hv⟩
    · rw [run_between_ordered hd hu hv] at h
      cases h
    · rw [run_between_swapped hd hu hv] at h
      refine ⟨u, m, v, rfl, ?_, hu, hv⟩
      rintro rfl
      cases h
  · rintro ⟨u, m, v, rfl, hm, hu, hv⟩
    rw [run_between_swapped hd hu hv, if_neg hm]

end Searching

/-! ## Beginnings -/

/-- A text that is no longer, or that has a character's end at the offset. -/
def FitsAt (k : Nat) (s : List Char) : Prop := byteLength s ≤ k ∨ ¬Straddles s k

/-- What is left of a text when it is longer: its first `k` bytes and a mark. -/
def cutAt (k : Nat) (mark s : List Char) : Option (List Char) :=
  if byteLength s ≤ k then some s else (byteSlice s 0 k).map (· ++ mark)

theorem cutAt_isSome (k : Nat) (mark s : List Char) : (cutAt k mark s).isSome ↔ FitsAt k s := by
  unfold cutAt FitsAt
  split
  · rename_i hle
    simp [hle]
  · rename_i hlt
    have hslice := byteSlice_eq_none (a := 0) (b := k) (s := s) (by omega) (by omega)
    have hzero : ¬Straddles s 0 := fun ⟨_, _, _, _, h, _⟩ => absurd h (Nat.not_lt_zero _)
    rw [or_iff_right hzero] at hslice
    rw [Option.isSome_map, ← Option.ne_none_iff_isSome, or_iff_right hlt]
    exact not_congr hslice

theorem not_fitsAt {c : Char} (hs : byteLength s < k) (hc : k < byteLength s + c.utf8Size) :
    ¬FitsAt k (s ++ c :: t) := by
  rintro (hle | hno)
  · rw [byteLength_append, byteLength_cons] at hle
    omega
  · exact hno ⟨s, c, t, rfl, hs, hc⟩

theorem cutAt_eq_some {k : Nat} {mark : List Char} (h : cutAt k mark s = some t) :
    t = s ∧ byteLength s ≤ k ∨ ∃ u v, s = u ++ v ∧ byteLength u = k ∧ t = u ++ mark := by
  unfold cutAt at h
  split at h
  · rename_i hle
    exact .inl ⟨(Option.some.inj h).symm, hle⟩
  · obtain ⟨u, hu, rfl⟩ := Option.map_eq_some_iff.mp h
    obtain ⟨w, v, hs, hw, hlen⟩ := byteSlice_eq_some.mp hu
    obtain rfl := eq_nil_of_byteLength hw
    exact .inr ⟨u, v, hs, hlen, rfl⟩

/-! ## Numbers at fixed places -/

/-- A slice and what reads it. -/
structure ByteField where
  start : Nat
  stop : Nat
  parse : List Char → Option Int

/-- The slices one after the other; the outer option is none where one panics, the inner one
where one is no number. -/
def readSlices : List ByteField → List Char → OptionT Option (List Int)
  | [], _ => pure []
  | f :: fields, s => do
    let part ← OptionT.lift (byteSlice s f.start f.stop)
    let n ← OptionT.mk (some (f.parse part))
    let rest ← readSlices fields s
    return n :: rest

/-- No slice that is reached cuts a character. -/
def Whole : List ByteField → List Char → Prop
  | [], _ => True
  | f :: fields, s =>
    ¬Straddles s f.start ∧ ¬Straddles s f.stop ∧
      ∀ part, byteSlice s f.start f.stop = some part → f.parse part ≠ none → Whole fields s

/-- The field is inside a text of `n` bytes. -/
def ByteField.Within (n : Nat) (f : ByteField) : Prop := f.start ≤ f.stop ∧ f.stop ≤ n

/-- The numbers that stand in the fields. -/
def Numbers (fields : List ByteField) (s : List Char) (ns : List Int) : Prop :=
  List.Forall₂
    (fun f n => ∃ part, byteSlice s f.start f.stop = some part ∧ f.parse part = some n) fields ns

variable {f : ByteField} {fields : List ByteField} {ns : List Int}

theorem readSlices_append (hin : ∀ f ∈ fields, f.Within (byteLength s)) :
    readSlices fields (s ++ t) = readSlices fields s := by
  induction fields with
  | nil => rfl
  | cons f fields ih =>
    obtain ⟨hab, hb⟩ := hin f List.mem_cons_self
    rw [readSlices, readSlices, byteSlice_append hab hb,
      ih fun g hg => hin g (List.mem_cons_of_mem _ hg)]

theorem run_readSlices_cons : (readSlices (f :: fields) s).run =
    (byteSlice s f.start f.stop).bind fun part =>
      match f.parse part with
      | none => some none
      | some n => (readSlices fields s).run.map fun rest => rest.map (n :: ·) := by
  simp only [readSlices, OptionT.run_bind, OptionT.run_lift]
  cases byteSlice s f.start f.stop with
  | none => rfl
  | some part =>
    cases hparse : f.parse part with
    | none => simp [Option.elimM, hparse]
    | some n =>
      cases (readSlices fields s).run with
      | none => simp [Option.elimM, hparse]
      | some rest => cases rest <;> simp [Option.elimM, hparse]

/-- Reading panics where a slice that is reached cuts a character. -/
theorem readSlices_eq_none (hin : ∀ f ∈ fields, f.Within (byteLength s)) :
    (readSlices fields s).run = none ↔ ¬Whole fields s := by
  induction fields with
  | nil => simp [readSlices, Whole]
  | cons f fields ih =>
    obtain ⟨hab, hb⟩ := hin f List.mem_cons_self
    have ih := ih fun g hg => hin g (List.mem_cons_of_mem _ hg)
    rw [run_readSlices_cons, Whole, ← and_assoc, ← not_or, ← byteSlice_eq_none hab hb]
    cases hslice : byteSlice s f.start f.stop with
    | none => simp
    | some part =>
      cases hparse : f.parse part with
      | none => simp [hparse]
      | some n => simp [hparse, ih]

theorem readSlices_eq_some :
    (readSlices fields s).run = some (some ns) ↔ Numbers fields s ns := by
  unfold Numbers
  induction fields generalizing ns with
  | nil =>
    cases ns <;> simp [readSlices]
  | cons f fields ih =>
    rw [run_readSlices_cons, List.forall₂_cons_left_iff]
    simp only [← ih]
    cases hslice : byteSlice s f.start f.stop with
    | none => simp
    | some part =>
      cases hparse : f.parse part with
      | none => simp [hparse]
      | some n =>
        cases hrest : (readSlices fields s).run with
        | none => simp [hparse]
        | some rest =>
          cases rest with
          | none => simp [hparse]
          | some rest => simp [hparse, eq_comm]

end Lyra.Lib
