import Lyra.Dav.Xml
import Lyra.Lib.XmlTree

/-!
# Scanning for tags

What the scanners of `dav_protocol.rs` find in a text that is written piece by piece.  A piece in
which every tag is closed can be scanned alone.

* `findOpen_append`, `findClose_append`: the first tag of two pieces;
* `endOf_quiet`, `endOf_open`, `endOf_close`: how a piece changes the nesting.
-/

namespace Lyra

open Lyra.Lib

/-! ## Scanning from a place -/

/-- What the scanner finds at the first place where `at'` has a length: where it is and where it
ends. -/
def scan (at' : Text → Option Nat) : Text → Option (Nat × Nat)
  | [] => none
  | c :: s =>
    match at' (c :: s) with
    | some n => some (0, n)
    | none => (scan at' s).map fun place => (place.1 + 1, place.2 + 1)

def shift (k : Nat) (place : Nat × Nat) : Nat × Nat := (place.1 + k, place.2 + k)

/-- The length of the opening tag that begins here, if its local name is `tag`. -/
def openAt (tag : Text) : Text → Option Nat
  | '<' :: s =>
    if s.head? = some '/' then none
    else (findText ['>'] s).bind fun gt =>
      if localName (s.take gt) = tag then some (gt + 2) else none
  | _ => none

/-- The length of the closing tag that begins here, if its local name is `tag`. -/
def closeAt (tag : Text) : Text → Option Nat
  | '<' :: '/' :: s =>
    (findText ['>'] s).bind fun gt =>
      if lastPiece (s.take gt) = tag then some (gt + 3) else none
  | _ => none

section Scan

variable {at' : Text → Option Nat} {tag a b s t xml : Text} {k n pos : Nat} {c : Char}

theorem map_shift_zero (place : Option (Nat × Nat)) : place.map (shift 0) = place := by
  cases place with
  | none => rfl
  | some place => rfl

theorem shift_shift (j k : Nat) (place : Nat × Nat) : shift j (shift k place) = shift (k + j) place := by
  simp [shift, Nat.add_assoc]

theorem map_shift_shift (j k : Nat) (place : Option (Nat × Nat)) :
    (place.map (shift k)).map (shift j) = place.map (shift (k + j)) := by
  cases place with
  | none => rfl
  | some place => exact congrArg some (shift_shift j k place)

theorem scan_eq_some {place : Nat × Nat} (hpos : ∀ s n, at' s = some n → 0 < n)
    (h : scan at' s = some place) : place.1 < s.length ∧ place.1 < place.2 := by
  induction s generalizing place with
  | nil => cases h
  | cons c s ih =>
    rw [scan] at h
    split at h
    · rename_i n hn
      obtain rfl := Option.some.inj h
      exact ⟨Nat.succ_pos _, hpos _ _ hn⟩
    · obtain ⟨p, hp, rfl⟩ := Option.map_eq_some_iff.mp h
      obtain ⟨h1, h2⟩ := ih hp
      exact ⟨Nat.succ_lt_succ h1, Nat.succ_lt_succ h2⟩

/-- Where nothing is found, scanning goes on behind. -/
theorem scan_append (h : ∀ x y, a = x ++ y → y ≠ [] → at' (y ++ b) = at' y) :
    scan at' (a ++ b) = (scan at' a).or ((scan at' b).map (shift a.length)) := by
  induction a with
  | nil =>
    rw [List.nil_append, List.length_nil, map_shift_zero]
    rfl
  | cons c a ih =>
    have hhere := h [] (c :: a) rfl (List.cons_ne_nil c a)
    rw [List.cons_append] at hhere
    rw [List.cons_append, scan, scan, hhere]
    cases at' (c :: a) with
    | some n => rfl
    | none =>
      simp only
      rw [ih fun x y hxy => h (c :: x) y (by rw [hxy]; rfl)]
      cases scan at' a with
      | some place => rfl
      | none =>
        cases scan at' b with
        | none => rfl
        | some place => simp [shift, Nat.add_assoc]

/-! ## The scanners -/

theorem findText_cons_ne {d : Char} (h : d ≠ c) (s : Text) :
    findText [c] (d :: s) = (findText [c] s).map (· + 1) := by
  rw [findText, if_neg]
  simpa [List.isPrefixOf] using h.symm

theorem findText_cons_self (c : Char) (s : Text) : findText [c] (c :: s) = some 0 := by
  rw [findText, if_pos]
  simp [List.isPrefixOf]

theorem findText_singleton (h : c ∉ a) (b : Text) : findText [c] (a ++ c :: b) = some a.length := by
  induction a with
  | nil => exact findText_cons_self c b
  | cons d a ih =>
    obtain ⟨hd, ha⟩ := List.ne_and_not_mem_of_not_mem_cons h
    rw [List.cons_append, findText_cons_ne hd.symm, ih ha]
    rfl

theorem findText_singleton_eq_none : findText [c] s = none ↔ c ∉ s := by
  constructor
  · intro h hmem
    obtain ⟨a, b, rfl, ha⟩ := List.eq_append_cons_of_mem hmem
    rw [findText_singleton ha] at h
    cases h
  · intro h
    cases hfind : findText [c] s with
    | none => rfl
    | some i =>
      have hs := findText_eq_some hfind
      exact absurd (by rw [hs]; simp) h

theorem findText_singleton_eq_some (h : findText [c] s = some n) :
    ∃ a b, s = a ++ c :: b ∧ c ∉ a ∧ a.length = n := by
  have hmem : c ∈ s := by
    by_contra hnot
    rw [findText_singleton_eq_none.mpr hnot] at h
    cases h
  obtain ⟨a, b, rfl, ha⟩ := List.eq_append_cons_of_mem hmem
  rw [findText_singleton ha] at h
  exact ⟨a, b, rfl, ha, Option.some.inj h⟩

theorem openAt_of_ne (tag : Text) (h : c ≠ '<') (s : Text) : openAt tag (c :: s) = none := by
  rw [openAt]
  rintro s' ⟨rfl, -⟩
  exact h rfl

theorem closeAt_of_ne (tag : Text) (h : c ≠ '<') (s : Text) : closeAt tag (c :: s) = none := by
  rw [closeAt]
  rintro s' ⟨rfl, -⟩
  exact h rfl

theorem scan_skip (hopen : ∀ c s, c ≠ '<' → at' (c :: s) = none) (h : '<' ∉ a) (b : Text) :
    scan at' (a ++ b) = (scan at' b).map (shift a.length) := by
  induction a with
  | nil =>
    rw [List.nil_append, List.length_nil, map_shift_zero]
  | cons c a ih =>
    obtain ⟨hc, ha⟩ := List.ne_and_not_mem_of_not_mem_cons h
    rw [List.cons_append, scan, hopen c _ hc.symm]
    simp only
    rw [ih ha]
    exact map_shift_shift 1 a.length _

theorem findOpenFrom_eq {fuel : Nat} (hfuel : xml.length - pos < fuel) :
    findOpenFrom xml tag fuel pos = (scan (openAt tag) (xml.drop pos)).map (shift pos) := by
  induction fuel generalizing pos with
  | zero => omega
  | succ fuel ih =>
    rw [findOpenFrom]
    cases hlt : findText ['<'] (xml.drop pos) with
    | none =>
      have hskip := scan_skip (fun c s hc => openAt_of_ne tag hc s)
        (findText_singleton_eq_none.mp hlt) []
      rw [List.append_nil] at hskip
      rw [hskip]
      rfl
    | some lt =>
      obtain ⟨a, r, hs, ha, rfl⟩ := findText_singleton_eq_some hlt
      have hstart : xml.drop (pos + a.length) = '<' :: r := by
        rw [← List.drop_drop, hs, List.drop_left]
      have hnext : xml.drop (pos + a.length + 1) = r := by
        rw [← List.drop_drop, hstart]
        rfl
      have hhead : xml[pos + a.length + 1]? = r.head? := by
        rw [← hnext, List.head?_drop]
      have hlength := congrArg List.length hs
      rw [List.length_drop, List.length_append, List.length_cons] at hlength
      have hrest := ih (show xml.length - (pos + a.length + 1) < fuel by omega)
      rw [hnext] at hrest
      have hgt : findText ['>'] ('<' :: r) = (findText ['>'] r).map (· + 1) :=
        findText_cons_ne (by decide) r
      rw [hs, scan_skip (fun c s hc => openAt_of_ne tag hc s) ha, scan, openAt]
      simp only
      rw [hhead, hstart, hgt, hrest]
      have hbehind : ((((scan (openAt tag) r).map fun place => (place.1 + 1, place.2 + 1)).map
          (shift a.length)).map (shift pos)) =
            (scan (openAt tag) r).map (shift (pos + a.length + 1)) := by
        have hone := map_shift_shift a.length 1 (scan (openAt tag) r)
        have hall := map_shift_shift pos (1 + a.length) (scan (openAt tag) r)
        rw [← hone] at hall
        rw [show pos + a.length + 1 = 1 + a.length + pos by omega]
        exact hall
      by_cases hslash : r.head? = some '/'
      · rw [if_pos hslash, if_pos hslash]
        exact hbehind.symm
      · rw [if_neg hslash, if_neg hslash]
        cases findText ['>'] r with
        | none => exact hbehind.symm
        | some g =>
          have hinner : slice xml (pos + a.length + 1) (pos + a.length + (g + 1)) = r.take g := by
            unfold slice
            rw [hnext]
            congr 1
            omega
          simp only [Option.map_some, Option.bind_some]
          rw [hinner]
          by_cases hname : localName (r.take g) = tag
          · rw [if_pos hname, if_pos hname]
            simp only [Option.map_some, shift, Option.some.injEq, Prod.mk.injEq]
            omega
          · rw [if_neg hname, if_neg hname]
            exact hbehind.symm

theorem findOpen_eq (xml tag : Text) : findOpen xml tag = scan (openAt tag) xml := by
  unfold findOpen
  rw [findOpenFrom_eq (by omega), List.drop_zero, map_shift_zero]

theorem findCloseFrom_step {fuel : Nat} (hs : xml.drop pos = c :: s)
    (hnot : ['<', '/'].isPrefixOf (c :: s) = false) :
    findCloseFrom xml tag fuel pos = findCloseFrom xml tag fuel (pos + 1) := by
  have hnext : xml.drop (pos + 1) = s := by
    rw [← List.drop_drop, hs]
    rfl
  cases fuel with
  | zero => rfl
  | succ fuel =>
    rw [findCloseFrom, findCloseFrom, hs, hnext, findText, if_neg (by simp [hnot])]
    cases findText ['<', '/'] s with
    | none => rfl
    | some lt =>
      have hsame : pos + (lt + 1) = pos + 1 + lt := by omega
      simp only [Option.map_some]
      rw [hsame]

theorem closeAt_of_not (hnot : ['<', '/'].isPrefixOf s = false) : closeAt tag s = none := by
  unfold closeAt
  split
  · rename_i r
    simp [List.isPrefixOf] at hnot
  · rfl

theorem findCloseFrom_eq {fuel : Nat} (hfuel : xml.length - pos < fuel) :
    findCloseFrom xml tag fuel pos = (scan (closeAt tag) (xml.drop pos)).map (shift pos) := by
  induction hn : xml.length - pos using Nat.strongRecOn generalizing pos fuel with
  | ind n ih =>
    cases hs : xml.drop pos with
    | nil =>
      cases fuel with
      | zero => rfl
      | succ fuel =>
        rw [findCloseFrom, hs]
        rfl
    | cons c s =>
      have hlength := congrArg List.length hs
      rw [List.length_drop, List.length_cons] at hlength
      have hnext : xml.drop (pos + 1) = s := by
        rw [← List.drop_drop, hs]
        rfl
      cases hprefix : ['<', '/'].isPrefixOf (c :: s) with
      | false =>
        rw [findCloseFrom_step hs hprefix, ih _ (by omega) (by omega) rfl, hnext, scan,
          closeAt_of_not hprefix]
        have hone := map_shift_shift pos 1 (scan (closeAt tag) s)
        rw [Nat.add_comm pos 1]
        exact hone.symm
      | true =>
        obtain ⟨r, rfl, rfl⟩ : ∃ r, c = '<' ∧ s = '/' :: r := by
          obtain ⟨r, hr⟩ := List.isPrefixOf_iff_prefix.mp hprefix
          obtain ⟨hc, hs'⟩ := List.cons.inj hr
          exact ⟨r, hc.symm, hs'.symm⟩
        have hbehind : xml.drop (pos + 2) = r := by
          rw [← List.drop_drop, hs]
          rfl
        rw [List.length_cons] at hlength
        cases fuel with
        | zero => omega
        | succ fuel =>
          have hrest := ih (xml.length - (pos + 2)) (by omega)
            (show xml.length - (pos + 2) < fuel by omega) rfl
          have hfind : findText ['<', '/'] ('<' :: '/' :: r) = some 0 := by
            rw [findText, if_pos hprefix]
          have hgt : findText ['>'] ('<' :: '/' :: r) = (findText ['>'] r).map (· + 2) := by
            rw [findText_cons_ne (by decide), findText_cons_ne (by decide), Option.map_map]
            rfl
          have hscan : scan (closeAt tag) ('/' :: r) =
              (scan (closeAt tag) r).map fun place => (place.1 + 1, place.2 + 1) := by
            rw [scan, closeAt_of_ne tag (by decide)]
          have hmap := map_shift_shift pos 2 (scan (closeAt tag) r)
          rw [← map_shift_shift 1 1, Nat.add_comm 2 pos, ← hbehind] at hmap
          rw [findCloseFrom, hs, hfind, scan, hscan, closeAt]
          simp only
          rw [Nat.add_zero, hs, hgt, hrest]
          cases findText ['>'] r with
          | none =>
            rw [← hbehind]
            exact hmap.symm
          | some g =>
            have hinner : slice xml (pos + 2) (pos + (g + 2)) = r.take g := by
              unfold slice
              rw [hbehind]
              congr 1
              omega
            simp only [Option.map_some, Option.bind_some]
            rw [hinner]
            by_cases hname : lastPiece (r.take g) = tag
            · rw [if_pos hname, if_pos hname]
              simp only [Option.map_some, shift, Option.some.injEq, Prod.mk.injEq]
              omega
            · rw [if_neg hname, if_neg hname, ← hbehind]
              exact hmap.symm

theorem findClose_eq (xml tag : Text) : findClose xml tag = scan (closeAt tag) xml := by
  unfold findClose
  rw [findCloseFrom_eq (by omega), List.drop_zero, map_shift_zero]

/-! ## Pieces -/

/-- Every bracket that opens is closed in the piece. -/
def Closed (a : Text) : Prop := ∀ x y, a = x ++ '<' :: y → '>' ∈ y

theorem closed_of_not_mem (h : '<' ∉ a) : Closed a := by
  rintro x y rfl
  exact absurd (by simp) h

theorem closed_of_last (a : Text) : Closed (a ++ ['>']) := by
  intro x y h
  have hne : y ≠ [] := by
    rintro rfl
    have hlast := congrArg List.getLast? h
    simp at hlast
  have hy : y.getLast? = some '>' := by
    have hlast := congrArg List.getLast? h
    rw [List.getLast?_concat, List.getLast?_append_cons, List.getLast?_cons] at hlast
    cases hlast' : y.getLast? with
    | none => exact absurd (List.getLast?_eq_none_iff.mp hlast') hne
    | some c =>
      rw [hlast'] at hlast
      exact hlast.symm
  exact List.mem_of_getLast? hy

theorem Closed.append (ha : Closed a) (hb : Closed b) : Closed (a ++ b) := by
  intro x y h
  rcases List.append_eq_append_iff.mp h with ⟨x', rfl, hb'⟩ | ⟨a', rfl, hb'⟩
  · exact hb x' y hb'
  · cases a' with
    | nil => exact hb [] y hb'.symm
    | cons c a' =>
      obtain ⟨rfl, rfl⟩ := List.cons.inj hb'
      exact List.mem_append_left _ (ha x a' rfl)

theorem openAt_bracket {p : Text} (h : '>' ∉ p) (q : Text) :
    openAt tag ('<' :: (p ++ '>' :: q)) =
      if p.head? = some '/' then none
      else if localName p = tag then some (p.length + 2) else none := by
  have hhead : (p ++ '>' :: q).head? = some '/' ↔ p.head? = some '/' := by
    cases p with
    | nil => simp
    | cons d p => simp
  rw [openAt, findText_singleton h, Option.bind_some, List.take_left]
  simp only [hhead]

theorem closeAt_bracket {p : Text} (h : '>' ∉ p) (q : Text) :
    closeAt tag ('<' :: '/' :: (p ++ '>' :: q)) =
      if lastPiece p = tag then some (p.length + 3) else none := by
  rw [closeAt, findText_singleton h, Option.bind_some, List.take_left]

theorem closeAt_of_head {p : Text} (h : p.head? ≠ some '/') : closeAt tag ('<' :: p) = none := by
  refine closeAt_of_not ?_
  cases p with
  | nil => rfl
  | cons d p =>
    have hd : d ≠ '/' := fun hd => h (by rw [hd]; rfl)
    simp [List.isPrefixOf, hd.symm]

theorem findOpen_append (ha : Closed a) (b tag : Text) :
    findOpen (a ++ b) tag = (findOpen a tag).or ((findOpen b tag).map (shift a.length)) := by
  rw [findOpen_eq, findOpen_eq, findOpen_eq]
  refine scan_append fun x y hxy hne => ?_
  cases y with
  | nil => exact absurd rfl hne
  | cons c y =>
    by_cases hc : c = '<'
    · subst hc
      obtain ⟨p, q, rfl, hp⟩ := List.eq_append_cons_of_mem (ha x y hxy)
      rw [List.cons_append, List.append_assoc, List.cons_append, openAt_bracket hp,
        openAt_bracket hp]
    · rw [List.cons_append, openAt_of_ne tag hc, openAt_of_ne tag hc]

/-- The first closing tag of two pieces. -/
theorem findClose_append (ha : Closed a) (b tag : Text) :
    findClose (a ++ b) tag = (findClose a tag).or ((findClose b tag).map (shift a.length)) := by
  rw [findClose_eq, findClose_eq, findClose_eq]
  refine scan_append fun x y hxy hne => ?_
  cases y with
  | nil => exact absurd rfl hne
  | cons c y =>
    by_cases hc : c = '<'
    · subst hc
      have hmem := ha x y hxy
      by_cases hslash : y.head? = some '/'
      · obtain ⟨y, rfl⟩ := List.head?_eq_some_iff.mp hslash
        have hmem' : '>' ∈ y := (List.mem_cons.mp hmem).resolve_left (by decide)
        obtain ⟨p, q, rfl, hp⟩ := List.eq_append_cons_of_mem hmem'
        rw [List.cons_append, List.cons_append, List.append_assoc, List.cons_append,
          closeAt_bracket hp, closeAt_bracket hp]
      · have hslash' : (y ++ b).head? ≠ some '/' := by
          cases y with
          | nil => exact absurd hmem List.not_mem_nil
          | cons d y => exact hslash
        rw [List.cons_append, closeAt_of_head hslash', closeAt_of_head hslash]
    · rw [List.cons_append, closeAt_of_ne tag hc, closeAt_of_ne tag hc]

/-- No tag with this local name begins in the piece. -/
structure Quiet (tag a : Text) : Prop where
  closed : Closed a
  noOpen : findOpen a tag = none
  noClose : findClose a tag = none

theorem quiet_of_not_mem (h : '<' ∉ a) : Quiet tag a := by
  have hskip := scan_skip (fun c s hc => openAt_of_ne tag hc s) h []
  have hskip' := scan_skip (fun c s hc => closeAt_of_ne tag hc s) h []
  rw [List.append_nil] at hskip hskip'
  exact ⟨closed_of_not_mem h, (findOpen_eq a tag).trans hskip, (findClose_eq a tag).trans hskip'⟩

end Scan

/-! ## Nesting -/

/-- Where the element ends in which the text begins, at this depth. -/
def endOf (tag : Text) (depth : Nat) (t : Text) : Option Nat := elementEnd t tag (t.length + 1) depth 0

section Nesting

variable {tag a b t xml block rest : Text} {depth fuel pos n : Nat}

theorem findOpen_lt {place : Nat × Nat} (h : findOpen t tag = some place) :
    place.1 < t.length ∧ place.1 < place.2 := by
  rw [findOpen_eq] at h
  refine scan_eq_some (fun s n hn => ?_) h
  unfold openAt at hn
  split at hn
  · split at hn
    · cases hn
    · obtain ⟨gt, -, hgt⟩ := Option.bind_eq_some_iff.mp hn
      split at hgt
      · rw [← Option.some.inj hgt]
        exact Nat.succ_pos _
      · cases hgt
  · cases hn

theorem findClose_lt {place : Nat × Nat} (h : findClose t tag = some place) :
    place.1 < t.length ∧ place.1 < place.2 := by
  rw [findClose_eq] at h
  refine scan_eq_some (fun s n hn => ?_) h
  unfold closeAt at hn
  split at hn
  · obtain ⟨gt, -, hgt⟩ := Option.bind_eq_some_iff.mp hn
    split at hgt
    · rw [← Option.some.inj hgt]
      exact Nat.succ_pos _
    · cases hgt
  · cases hn

/-- The loop depends on what is left only. -/
theorem elementEnd_drop (xml tag : Text) (fuel depth pos n : Nat) :
    elementEnd xml tag fuel depth (pos + n) =
    (elementEnd (xml.drop pos) tag fuel depth n).map (· + pos) := by
  induction fuel generalizing depth n with
  | zero => rfl
  | succ fuel ih =>
    have hstep : ∀ depth k, elementEnd xml tag fuel depth (pos + n + k) =
        (elementEnd (xml.drop pos) tag fuel depth (n + k)).map (· + pos) := by
      intro depth k
      rw [Nat.add_assoc]
      exact ih depth (n + k)
    have hadd : ∀ k, pos + n + k = n + k + pos := by omega
    rw [elementEnd, elementEnd, List.drop_drop]
    cases findClose (xml.drop (pos + n)) tag with
    | none =>
      cases findOpen (xml.drop (pos + n)) tag with
      | none => rfl
      | some o => exact hstep (depth + 1) (o.1 + 1)
    | some c =>
      have hclose : (if depth = 1 then some (pos + n + c.2)
            else elementEnd xml tag fuel (depth - 1) (pos + n + c.2)) =
          (if depth = 1 then some (n + c.2)
            else elementEnd (xml.drop pos) tag fuel (depth - 1) (n + c.2)).map (· + pos) := by
        split
        · exact congrArg some (hadd c.2)
        · exact hstep (depth - 1) c.2
      cases findOpen (xml.drop (pos + n)) tag with
      | none => exact hclose
      | some o =>
        simp only
        split
        · exact hclose
        · exact hstep (depth + 1) (o.1 + 1)

/-- One step of the loop, on what is left. -/
theorem elementEnd_succ (t tag : Text) (fuel depth : Nat) : elementEnd t tag (fuel + 1) depth 0 =
    match findClose t tag, findOpen t tag with
    | some c, some o =>
      if c.1 < o.1 then
        if depth = 1 then some c.2
        else (elementEnd (t.drop c.2) tag fuel (depth - 1) 0).map (· + c.2)
      else (elementEnd (t.drop (o.1 + 1)) tag fuel (depth + 1) 0).map (· + (o.1 + 1))
    | some c, none =>
      if depth = 1 then some c.2
      else (elementEnd (t.drop c.2) tag fuel (depth - 1) 0).map (· + c.2)
    | none, some o => (elementEnd (t.drop (o.1 + 1)) tag fuel (depth + 1) 0).map (· + (o.1 + 1))
    | none, none => none := by
  have hrest : ∀ depth k, elementEnd t tag fuel depth (0 + k) =
      (elementEnd (t.drop k) tag fuel depth 0).map (· + k) := by
    intro depth k
    rw [Nat.add_comm]
    exact elementEnd_drop _ _ _ _ _ _
  have hrest' : ∀ depth k, elementEnd t tag fuel depth (0 + k + 1) =
      (elementEnd (t.drop (k + 1)) tag fuel depth 0).map (· + (k + 1)) := fun depth k =>
    hrest depth (k + 1)
  rw [elementEnd, List.drop_zero]
  cases findClose t tag with
  | none =>
    cases findOpen t tag with
    | none => rfl
    | some o => exact hrest' (depth + 1) o.1
  | some c =>
    cases findOpen t tag with
    | none =>
      simp only
      rw [hrest, Nat.zero_add]
    | some o =>
      simp only
      rw [hrest, hrest', Nat.zero_add]

theorem elementEnd_fuel {fuel' : Nat} (h : t.length < fuel) (h' : t.length < fuel') :
    elementEnd t tag fuel depth 0 = elementEnd t tag fuel' depth 0 := by
  induction fuel generalizing t fuel' depth with
  | zero => omega
  | succ fuel ih =>
    cases fuel' with
    | zero => omega
    | succ fuel' =>
      have hrest : ∀ depth k, 0 < k → 0 < t.length →
          elementEnd (t.drop k) tag fuel depth 0 = elementEnd (t.drop k) tag fuel' depth 0 := by
        intro depth k hk ht
        have hlength := List.length_drop (i := k) (l := t)
        exact ih (by omega) (by omega)
      rw [elementEnd_succ, elementEnd_succ]
      cases hclose : findClose t tag with
      | none =>
        cases hopen : findOpen t tag with
        | none => rfl
        | some o =>
          have ho := findOpen_lt hopen
          simp only
          rw [hrest _ _ (Nat.succ_pos _) (by omega)]
      | some c =>
        have hc := findClose_lt hclose
        cases findOpen t tag with
        | none =>
          simp only
          rw [hrest _ _ (by omega) (by omega)]
        | some o =>
          simp only
          rw [hrest _ c.2 (by omega) (by omega), hrest _ (o.1 + 1) (Nat.succ_pos _) (by omega)]

/-- One step of the loop, with the fuel of what is left. -/
theorem endOf_eq (tag : Text) (depth : Nat) (t : Text) : endOf tag depth t =
    match findClose t tag, findOpen t tag with
    | some c, some o =>
      if c.1 < o.1 then
        if depth = 1 then some c.2 else (endOf tag (depth - 1) (t.drop c.2)).map (· + c.2)
      else (endOf tag (depth + 1) (t.drop (o.1 + 1))).map (· + (o.1 + 1))
    | some c, none =>
      if depth = 1 then some c.2 else (endOf tag (depth - 1) (t.drop c.2)).map (· + c.2)
    | none, some o => (endOf tag (depth + 1) (t.drop (o.1 + 1))).map (· + (o.1 + 1))
    | none, none => none := by
  have hrest : ∀ depth k, 0 < k → 0 < t.length →
      elementEnd (t.drop k) tag t.length depth 0 = endOf tag depth (t.drop k) := by
    intro depth k hk ht
    have hlength := List.length_drop (i := k) (l := t)
    exact elementEnd_fuel (by omega) (Nat.lt_succ_self _)
  unfold endOf
  rw [elementEnd_succ]
  cases hclose : findClose t tag with
  | none =>
    cases hopen : findOpen t tag with
    | none => rfl
    | some o =>
      have ho := findOpen_lt hopen
      simp only
      rw [hrest _ _ (Nat.succ_pos _) (by omega)]
      rfl
  | some c =>
    have hc := findClose_lt hclose
    cases findOpen t tag with
    | none =>
      simp only
      rw [hrest _ _ (by omega) (by omega)]
      rfl
    | some o =>
      simp only
      rw [hrest _ c.2 (by omega) (by omega), hrest _ (o.1 + 1) (Nat.succ_pos _) (by omega)]
      rfl

theorem map_add_add (j k : Nat) (n : Option Nat) : (n.map (· + j)).map (· + k) = n.map (· + (j + k)) := by
  cases n with
  | none => rfl
  | some n => exact congrArg some (Nat.add_assoc n j k)

/-- A piece without tags is passed over. -/
theorem endOf_quiet (ha : Quiet tag a) (depth : Nat) (t : Text) :
    endOf tag depth (a ++ t) = (endOf tag depth t).map (· + a.length) := by
  have hclose : findClose (a ++ t) tag = (findClose t tag).map (shift a.length) := by
    rw [findClose_append ha.closed, ha.noClose]
    rfl
  have hopen : findOpen (a ++ t) tag = (findOpen t tag).map (shift a.length) := by
    rw [findOpen_append ha.closed, ha.noOpen]
    rfl
  have hdrop : ∀ k, (a ++ t).drop (k + a.length) = t.drop k := by
    intro k
    rw [Nat.add_comm, ← List.drop_drop, List.drop_left]
  have hdrop' : ∀ k, (a ++ t).drop (k + a.length + 1) = t.drop (k + 1) := by
    intro k
    rw [Nat.add_right_comm]
    exact hdrop (k + 1)
  rw [endOf_eq, hclose, hopen, endOf_eq tag depth t]
  cases findClose t tag with
  | none =>
    cases findOpen t tag with
    | none => rfl
    | some o =>
      simp only [Option.map_none, Option.map_some, shift]
      rw [hdrop', map_add_add, Nat.add_right_comm]
  | some c =>
    cases findOpen t tag with
    | none =>
      simp only [Option.map_none, Option.map_some, shift]
      rw [hdrop]
      split
      · rfl
      · rw [map_add_add]
    | some o =>
      simp only [Option.map_some, shift]
      rw [hdrop, hdrop']
      by_cases hlt : c.1 < o.1
      · rw [if_pos hlt, if_pos (Nat.add_lt_add_right hlt _)]
        split
        · rfl
        · rw [map_add_add]
      · rw [if_neg hlt, if_neg fun h => hlt (Nat.lt_of_add_lt_add_right h), map_add_add,
          Nat.add_right_comm]

/-- An opening tag goes one level down, whether its element is empty or not. -/
theorem endOf_open (hclosed : Closed a) (hopen : findOpen a tag = some (0, n))
    (hclose : findClose a tag = none) (hrest : '<' ∉ a.drop 1) (depth : Nat) (t : Text) :
    endOf tag depth (a ++ t) = (endOf tag (depth + 1) t).map (· + a.length) := by
  have hpos := (findOpen_lt hopen).1
  have hopen' : findOpen (a ++ t) tag = some (0, n) := by
    rw [findOpen_append hclosed, hopen]
    rfl
  have hclose' : findClose (a ++ t) tag = (findClose t tag).map (shift a.length) := by
    rw [findClose_append hclosed, hclose]
    rfl
  have hstep : (endOf tag (depth + 1) ((a ++ t).drop 1)).map (· + 1) =
      (endOf tag (depth + 1) t).map (· + a.length) := by
    have hone : (a ++ t).drop 1 = a.drop 1 ++ t := List.drop_append_of_le_length hpos
    rw [hone, endOf_quiet (quiet_of_not_mem hrest), map_add_add, List.length_drop,
      Nat.sub_add_cancel hpos]
  rw [endOf_eq, hopen', hclose']
  cases findClose t tag with
  | none => exact hstep
  | some c =>
    simp only [Option.map_some]
    rw [if_neg (Nat.not_lt_zero _)]
    exact hstep

/-- A closing tag goes one level up. -/
theorem endOf_close (hclosed : Closed a) (hopen : findOpen a tag = none)
    (hclose : findClose a tag = some (0, a.length)) (depth : Nat) (t : Text) :
    endOf tag depth (a ++ t) =
      if depth = 1 then some a.length else (endOf tag (depth - 1) t).map (· + a.length) := by
  have hpos := (findClose_lt hclose).1
  have hclose' : findClose (a ++ t) tag = some (0, a.length) := by
    rw [findClose_append hclosed, hclose]
    rfl
  have hopen' : findOpen (a ++ t) tag = (findOpen t tag).map (shift a.length) := by
    rw [findOpen_append hclosed, hopen]
    rfl
  rw [endOf_eq, hclose', hopen']
  cases findOpen t tag with
  | none =>
    simp only [Option.map_none]
    rw [List.drop_left]
  | some o =>
    have hlt : 0 < (shift a.length o).1 := Nat.lt_of_lt_of_le hpos (Nat.le_add_left _ _)
    simp only [Option.map_some]
    rw [if_pos hlt, List.drop_left]

end Nesting

end Lyra
